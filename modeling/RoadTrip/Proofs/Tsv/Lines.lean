import Mathlib.Data.List.Induction
import RoadTrip.Proofs.Tsv.Scan

/-!
# The lines on which records start

A record is read from where the one before it ended, and that is the position it is given. The line
ends that are skipped in between, among them the line feed of a line that ends with both, are no
part of that position, so its line is too small by the line feeds among them (`records_line`). The
invariant (`Traced`) says where in the bytes read so far each record started and where the one
before it ended.
-/

namespace RoadTrip.Tsv

/-! ## Where a record starts -/

/-- The line on which a byte stands: one more than the line feeds before it. -/
def lineAt (bytes : List UInt8) (p : Nat) : Nat := 1 + (bytes.take p).count lineFeed

/-- A byte is the first of a record: cut off before it the file has so many records, and cut off
behind it one more. -/
structure StartsAt (bytes : List UInt8) (record p : Nat) : Prop where
  lt : p < bytes.length
  before : (records (bytes.take p)).length = record
  through : (records (bytes.take (p + 1))).length = record + 1

/-- The ends of lines directly before a byte. Before the first byte of a record that is not the
first, these are the one that ended the record before it and then those that are skipped. -/
def lineEndsBefore (bytes : List UInt8) (p : Nat) : List UInt8 :=
  ((bytes.take p).reverse.takeWhile endsLine).reverse

/-! ## While reading -/

theorem reading_concat (m : Nat) (body : List UInt8) (b : UInt8) :
    reading m (body ++ [b]) = feed (reading m body) b := by
  rw [reading, reading, List.foldl_append, List.foldl_cons, List.foldl_nil]

/-- Some bytes are none, or they end with the line end of a record. -/
def Closed (before : List UInt8) (record : Nat) : Prop :=
  before = [] ∧ record = 0 ∨ ∃ init last t, before = init ++ [last, t] ∧ endsLine last = false ∧
    endsLine t = true

/-- A record starts behind some bytes and the line ends that are skipped after them, and `line` is
the line on which these bytes end. -/
def Located (m : Nat) (body : List UInt8) (record line : Nat) : Prop :=
  ∃ before gap b rest, body = before ++ gap ++ b :: rest ∧ Closed before record ∧
    (∀ e ∈ gap, endsLine e = true) ∧ line = 1 + before.count lineFeed ∧
    (close (reading m (before ++ gap))).length = record ∧
    (close (reading m (before ++ gap ++ [b]))).length = record + 1

theorem Located.concat {m record line : Nat} {body : List UInt8} (b : UInt8)
    (h : Located m body record line) : Located m (body ++ [b]) record line := by
  obtain ⟨before, gap, first, rest, rfl, h⟩ := h
  exact ⟨before, gap, first, rest ++ [b], by simp, h⟩

/-- What the reading of some bytes says of their lines. -/
structure Traced (m : Nat) (body : List UInt8) (s : List Record × Cursor) : Prop where
  here : s.2.here.line = 1 + body.count lineFeed
  /-- Between two records: the bytes up to the end of the record before, and what is skipped. -/
  between : s.2.phase = .between → ∃ before gap, body = before ++ gap ∧
    Closed before s.1.length ∧ (∀ e ∈ gap, endsLine e = true) ∧
    s.2.start.line = 1 + before.count lineFeed
  inside : s.2.phase ≠ .between → Located m body s.1.length s.2.start.line
  /-- Outside quotes the last byte of a record so far is no line end. -/
  last : s.2.phase ≠ .between → s.2.phase ≠ .quoted → ∃ init b, body = init ++ [b] ∧
    endsLine b = false
  ended : ∀ k r, s.1[k]? = some r → Located m body k r.position.line

theorem advance_line (p : Position) (b : UInt8) (body : List UInt8)
    (h : p.line = 1 + body.count lineFeed) :
    (advance p b).line = 1 + (body ++ [b]).count lineFeed := by
  rw [List.count_append, List.count_singleton]
  unfold advance
  dsimp only
  split <;> omega

theorem getElem?_concat_eq_some {β : Type} {l : List β} {x y : β} {k : Nat}
    (h : (l ++ [x])[k]? = some y) : l[k]? = some y ∨ k = l.length ∧ x = y := by
  rcases Nat.lt_trichotomy k l.length with hk | rfl | hk
  · rw [List.getElem?_append_left hk] at h
    exact .inl h
  · rw [List.getElem?_concat_length] at h
    exact .inr ⟨rfl, Option.some.inj h⟩
  · rw [List.getElem?_eq_none (by rw [List.length_append]; exact hk)] at h
    cases h

theorem Traced.nil (m : Nat) : Traced m [] (reading m []) where
  here := rfl
  between _ := ⟨[], [], rfl, .inl ⟨rfl, rfl⟩, fun _ h => absurd h List.not_mem_nil, rfl⟩
  inside h := absurd rfl h
  last h := absurd rfl h
  ended _ _ h := by cases h

/-- One more byte. -/
theorem Traced.concat {m : Nat} {body : List UInt8} (h : Traced m body (reading m body))
    (b : UInt8) : Traced m (body ++ [b]) (reading m (body ++ [b])) := by
  have hconcat := reading_concat m body b
  have hended (k : Nat) (r : Record) (hr : (reading m body).1[k]? = some r) :
      Located m (body ++ [b]) k r.position.line :=
    (h.ended k r hr).concat b
  rcases (reading m body).2.step_cases b with ⟨hphase, hb, hstep⟩ |
    ⟨next, hstep, hphase, hstart, hhere, hfirst, hlast⟩ | ⟨hphase, hquoted, hb, hstep⟩
  · -- skipped
    obtain ⟨before, gap, hbody, hclosed, hgap, hstart⟩ := h.between hphase
    rw [hconcat, feed, hstep, Option.toList_none, List.append_nil]
    exact {
      here := advance_line _ b body h.here
      between := fun _ => ⟨before, gap ++ [b], by rw [hbody, List.append_assoc], hclosed,
        List.forall_mem_append.2 ⟨hgap, List.forall_mem_singleton.2 hb⟩, hstart⟩
      inside := fun hne => absurd hphase hne
      last := fun hne => absurd hphase hne
      ended := hended }
  · -- goes on with a record, or starts one
    have hline : next.here.line = 1 + (body ++ [b]).count lineFeed := by
      rw [hhere]
      exact advance_line _ b body h.here
    have hinside : Located m (body ++ [b]) (reading m body).1.length next.start.line := by
      rw [hstart]
      by_cases hbetween : (reading m body).2.phase = .between
      · obtain ⟨before, gap, hbody, hclosed, hgap, hline⟩ := h.between hbetween
        refine ⟨before, gap, b, [], by rw [hbody], hclosed, hgap, hline, ?_, ?_⟩
        · rw [← hbody, length_close, if_pos hbetween, Nat.add_zero]
        · rw [← hbody, hconcat, feed, hstep, Option.toList_none, List.append_nil, length_close,
            if_neg hphase]
      · exact (h.inside hbetween).concat b
    rw [hconcat, feed, hstep, Option.toList_none, List.append_nil]
    exact {
      here := hline
      between := fun hbetween => absurd hbetween hphase
      inside := fun _ => hinside
      last := fun _ hquoted => ⟨body, b, rfl, hlast.resolve_left hquoted⟩
      ended := hended }
  · -- ends a record
    obtain ⟨init, last, hbody, hlast⟩ := h.last hphase hquoted
    have hline := advance_line _ b body h.here
    have hlocated := (h.inside hphase).concat b
    rw [hconcat, feed, hstep, Option.toList_some]
    exact {
      here := hline
      between := fun _ => ⟨body ++ [b], [], (List.append_nil _).symm,
        .inr ⟨init, last, b, by rw [hbody, List.append_assoc]; rfl, hlast, hb⟩,
        fun _ he => absurd he List.not_mem_nil, hline⟩
      inside := fun hne => absurd rfl hne
      last := fun hne => absurd rfl hne
      ended := fun k r hr => by
        rcases getElem?_concat_eq_some hr with hr | ⟨rfl, rfl⟩
        · exact hended k r hr
        · exact hlocated }

theorem traced (m : Nat) (body : List UInt8) : Traced m body (reading m body) := by
  induction body using List.reverseRecOn with
  | nil => exact .nil m
  | append_singleton body b ih => exact ih.concat b

theorem located_of_close {m k : Nat} {body : List UInt8} {r : Record}
    (h : (close (reading m body))[k]? = some r) : Located m body k r.position.line := by
  have htraced := traced m body
  unfold close at h
  split at h
  · exact htraced.ended k r h
  · rename_i hphase
    rcases getElem?_concat_eq_some h with h | ⟨rfl, rfl⟩
    · exact htraced.ended k r h
    · exact htraced.inside hphase

/-! ## Whole files -/

/-- Behind a byte that is no line end the line ends before the end are those that follow it. -/
theorem takeWhile_endsLine_reverse {front gap : List UInt8} {last t : UInt8}
    (hlast : endsLine last = false) (ht : endsLine t = true)
    (hgap : ∀ e ∈ gap, endsLine e = true) :
    ((front ++ [last, t] ++ gap).reverse.takeWhile endsLine).reverse = t :: gap := by
  have hends : ∀ e ∈ (t :: gap).reverse, endsLine e = true := by
    intro e he
    rcases List.mem_cons.1 (List.mem_reverse.1 he) with rfl | he
    · exact ht
    · exact hgap e he
  rw [show front ++ [last, t] ++ gap = front ++ [last] ++ t :: gap by simp, List.reverse_append,
    List.takeWhile_append_of_pos hends, List.reverse_append, List.reverse_append,
    List.reverse_singleton, List.singleton_append,
    List.takeWhile_cons_of_neg (by rw [hlast]; exact Bool.false_ne_true), List.reverse_nil,
    List.nil_append, List.reverse_reverse]

/-- Cut off further behind, a file with a record behind its header has no fewer records. -/
theorem length_records_le {bytes : List UInt8} {m n : Nat}
    (h : 2 ≤ (records (bytes.take m)).length) (hmn : m ≤ n) :
    (records (bytes.take m)).length ≤ (records (bytes.take n)).length := by
  obtain ⟨mark, body, rfl, -, hmark, hrecords⟩ := exists_records bytes
  rcases Nat.lt_or_ge m mark.length with hm | hm
  · have hshort := hmark m hm
    rw [List.take_append_of_le_length (Nat.le_of_lt hm)] at h
    omega
  · have htake {i : Nat} (hi : mark.length ≤ i) :
        (mark ++ body).take i = mark ++ body.take (i - mark.length) := by
      rw [List.take_append, List.take_of_length_le hi]
    obtain ⟨more, hmore⟩ : body.take (m - mark.length) <+: body.take (n - mark.length) :=
      List.take_prefix_take_left (Nat.sub_le_sub_right hmn _)
    rw [htake hm, htake (Nat.le_trans hm hmn), hrecords _ (List.take_prefix _ _),
      hrecords _ (List.take_prefix _ _), ← hmore, reading, reading, List.foldl_append]
    exact length_close_le _ more

/-- Only one byte is the first of a record behind the header. -/
theorem StartsAt.unique {bytes : List UInt8} {k p q : Nat} (hp : StartsAt bytes (k + 1) p)
    (hq : StartsAt bytes (k + 1) q) : p = q := by
  have hle {p q : Nat} (hp : StartsAt bytes (k + 1) p) (hq : StartsAt bytes (k + 1) q) : q ≤ p := by
    by_contra hlt
    have htwo : 2 ≤ (records (bytes.take (p + 1))).length := by
      rw [hp.through]
      omega
    have hlength := length_records_le htwo (Nat.lt_of_not_le hlt)
    rw [hp.through, hq.before] at hlength
    omega
  exact Nat.le_antisymm (hle hq hp) (hle hp hq)

/-- **The line of a record** that is not the first of its file is that of its first byte, less the
line feeds that are skipped before it. -/
theorem records_line {bytes : List UInt8} {k : Nat} {r : Record}
    (h : (records bytes)[k + 1]? = some r) : ∃ p, (∀ q, StartsAt bytes (k + 1) q ↔ q = p) ∧
      r.position.line + (lineEndsBefore bytes p).tail.count lineFeed = lineAt bytes p := by
  obtain ⟨mark, body, rfl, hmark, -, hrecords⟩ := exists_records bytes
  rw [hrecords body List.prefix_rfl] at h
  obtain ⟨before, gap, b, rest, rfl, hclosed, hgap, hline, hstart, hthrough⟩ := located_of_close h
  have hcut := hrecords (before ++ gap) ⟨b :: rest, rfl⟩
  have hcut' := hrecords (before ++ gap ++ [b]) ⟨rest, by simp⟩
  have htake : (mark ++ (before ++ gap ++ b :: rest)).take (mark ++ (before ++ gap)).length =
      mark ++ (before ++ gap) := by
    rw [show mark ++ (before ++ gap ++ b :: rest) = mark ++ (before ++ gap) ++ b :: rest by simp]
    exact List.take_left' rfl
  have htake' : (mark ++ (before ++ gap ++ b :: rest)).take
      ((mark ++ (before ++ gap)).length + 1) = mark ++ (before ++ gap ++ [b]) := by
    rw [show mark ++ (before ++ gap ++ b :: rest) = mark ++ (before ++ gap ++ [b]) ++ rest by simp]
    exact List.take_left' (by simp [Nat.add_assoc])
  have hstarts : StartsAt (mark ++ (before ++ gap ++ b :: rest)) (k + 1)
      (mark ++ (before ++ gap)).length := by
    refine ⟨?_, ?_, ?_⟩
    · simp
    · rw [htake, hcut, hstart]
    · rw [htake', hcut', hthrough]
  refine ⟨(mark ++ (before ++ gap)).length, fun q => ⟨fun hq => hq.unique hstarts, ?_⟩, ?_⟩
  · rintro rfl
    exact hstarts
  · obtain ⟨-, hzero⟩ | ⟨init, last, t, rfl, hlast, ht⟩ := hclosed
    · cases hzero
    have hends : lineEndsBefore (mark ++ (init ++ [last, t] ++ gap ++ b :: rest))
        (mark ++ (init ++ [last, t] ++ gap)).length = t :: gap := by
      rw [lineEndsBefore, htake]
      rw [← List.append_assoc, ← List.append_assoc]
      exact takeWhile_endsLine_reverse hlast ht hgap
    have hcount := List.count_eq_zero_of_not_mem hmark
    rw [hends, lineAt, htake, hline, List.tail_cons]
    simp only [List.count_append, Nat.add_assoc, hcount, Nat.zero_add]

end RoadTrip.Tsv
