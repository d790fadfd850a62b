import RoadTrip.Tsv.Scan

/-!
# Reading a file byte by byte

The scan as a fold of single bytes over what has been read so far (`feed`), so that what holds after
some bytes is proved by one more byte at a time. `step_cases` says all that a byte can do: it is
skipped between two records, goes on with a record, or ends it.
-/

namespace RoadTrip.Tsv

/-! ## One byte -/

namespace Cursor

variable {c : Cursor} {b : UInt8}

theorem unquoted_of_endsLine (h : endsLine b = true) :
    c.unquoted b = (some c.record, { c with here := advance c.here b }.nextRecord) := by
  have htab : (b == tab) = false := by
    rw [beq_eq_false_iff_ne]
    rintro rfl
    cases h
  unfold unquoted
  rw [htab, h]
  rfl

/-- A byte that ends no line goes on with the record, outside quotes. -/
theorem exists_unquoted (h : endsLine b = false) :
    ∃ next, c.unquoted b = (none, next) ∧ (next.phase = .start ∨ next.phase = .plain) ∧
      next.start = c.start ∧ next.here = advance c.here b := by
  unfold unquoted
  rw [h]
  cases b == tab
  · exact ⟨_, rfl, .inr rfl, rfl, rfl⟩
  · exact ⟨_, rfl, .inl rfl, rfl, rfl⟩

theorem step_quote (h : c.phase = .between ∨ c.phase = .start) :
    c.step quote = (none, { c with here := advance c.here quote, phase := .quoted }) := by
  unfold step
  rcases h with h | h <;> rw [h] <;> rfl

theorem step_quoted (h : c.phase = .quoted) (hb : b ≠ quote) :
    c.step b = (none, { c with here := advance c.here b }.keep .quoted b) := by
  unfold step
  rw [h, beq_false_of_ne hb]
  rfl

theorem step_endQuote (h : c.phase = .quoted) :
    c.step quote = (none, { c with here := advance c.here quote, phase := .afterQuote }) := by
  unfold step
  rw [h]
  rfl

theorem step_secondQuote (h : c.phase = .afterQuote) :
    c.step quote = (none, { c with here := advance c.here quote }.keep .quoted quote) := by
  unfold step
  rw [h]
  rfl

theorem step_lineEnd (h : c.phase = .between) (hb : endsLine b = true) :
    c.step b = (none, { c with here := advance c.here b }) := by
  unfold step
  rw [h, hb]
  rfl

/-- Outside quotes only a quote at the start of a field or after another one is special. -/
theorem step_unquoted (h : c.phase ≠ .quoted) (hline : c.phase = .between → endsLine b = false)
    (hquote : b = quote → c.phase = .plain) : c.step b = c.unquoted b := by
  have hne (hp : c.phase ≠ .plain) : (b == quote) = false :=
    beq_false_of_ne fun hb => hp (hquote hb)
  unfold step
  cases hphase : c.phase with
  | between => simp only [hline hphase, hne (by simp [hphase]), Bool.false_eq_true, ↓reduceIte]
  | start => simp only [hne (by simp [hphase]), Bool.false_eq_true, ↓reduceIte]
  | plain => rfl
  | quoted => exact absurd hphase h
  | afterQuote => simp only [hne (by simp [hphase]), Bool.false_eq_true, ↓reduceIte]

/-- What a byte can do. -/
theorem step_cases (c : Cursor) (b : UInt8) :
    (c.phase = .between ∧ endsLine b = true ∧
      c.step b = (none, { c with here := advance c.here b })) ∨
    (∃ next, c.step b = (none, next) ∧ next.phase ≠ .between ∧ next.start = c.start ∧
      next.here = advance c.here b ∧ (c.phase = .between → endsLine b = false) ∧
      (next.phase = .quoted ∨ endsLine b = false)) ∨
    (c.phase ≠ .between ∧ c.phase ≠ .quoted ∧ endsLine b = true ∧
      c.step b = (some c.record, { c with here := advance c.here b }.nextRecord)) := by
  by_cases hquoted : c.phase = .quoted
  · by_cases hb : b = quote
    · subst hb
      exact .inr (.inl ⟨_, step_endQuote hquoted, nofun, rfl, rfl, fun _ => rfl, .inr rfl⟩)
    · refine .inr (.inl ⟨_, step_quoted hquoted hb, nofun, rfl, rfl, fun h => ?_, .inl rfl⟩)
      rw [hquoted] at h
      cases h
  by_cases hline : c.phase = .between → endsLine b = false
  · by_cases hquote : b = quote → c.phase = .plain
    · rw [step_unquoted hquoted hline hquote]
      cases hb : endsLine b with
      | true =>
        refine .inr (.inr ⟨fun h => ?_, hquoted, rfl, unquoted_of_endsLine hb⟩)
        rw [hline h] at hb
        cases hb
      | false =>
        obtain ⟨next, hnext, hphase, hstart, hhere⟩ := exists_unquoted (c := c) hb
        refine .inr (.inl ⟨next, hnext, ?_, hstart, hhere, fun _ => rfl, .inr rfl⟩)
        rcases hphase with h | h <;> rw [h] <;> nofun
    · -- a quote where a quoted part starts or goes on
      obtain ⟨rfl, hplain⟩ := Classical.not_imp.1 hquote
      refine .inr (.inl ?_)
      cases hphase : c.phase with
      | between => exact ⟨_, step_quote (.inl hphase), nofun, rfl, rfl, fun _ => rfl, .inl rfl⟩
      | start => exact ⟨_, step_quote (.inr hphase), nofun, rfl, rfl, fun _ => rfl, .inl rfl⟩
      | plain => exact absurd hphase hplain
      | quoted => exact absurd hphase hquoted
      | afterQuote => exact ⟨_, step_secondQuote hphase, nofun, rfl, rfl, fun _ => rfl, .inl rfl⟩
  · obtain ⟨hbetween, hb⟩ := Classical.not_imp.1 hline
    rw [Bool.not_eq_false] at hb
    exact .inl ⟨hbetween, hb, step_lineEnd hbetween hb⟩

end Cursor

/-! ## Many bytes -/

/-- Read one more byte after the records so far. -/
def feed (s : List Record × Cursor) (b : UInt8) : List Record × Cursor :=
  (s.1 ++ (s.2.step b).1.toList, (s.2.step b).2)

/-- The records of a file that ends here. -/
def close (s : List Record × Cursor) : List Record :=
  if s.2.phase = .between then s.1 else s.1 ++ [s.2.record]

theorem append_scan (s : List Record × Cursor) (bytes : List UInt8) :
    s.1 ++ scan s.2 bytes = close (bytes.foldl feed s) := by
  induction bytes generalizing s with
  | nil =>
    rw [scan, List.foldl_nil, close]
    split
    · exact List.append_nil _
    · rfl
  | cons b rest ih =>
    rw [List.foldl_cons, ← ih, feed, scan]
    rcases s.2.step b with ⟨_ | r, next⟩
    · simp
    · simp

theorem length_close (s : List Record × Cursor) :
    (close s).length = s.1.length + if s.2.phase = .between then 0 else 1 := by
  unfold close
  split
  · rfl
  · rw [List.length_append, List.length_singleton]

/-- One more byte takes no record away. -/
theorem length_close_feed_le (s : List Record × Cursor) (b : UInt8) :
    (close s).length ≤ (close (feed s b)).length := by
  rw [length_close, length_close]
  rcases hs : s with ⟨found, c⟩
  rcases c.step_cases b with ⟨hphase, -, hstep⟩ | ⟨next, hstep, hphase, -⟩ |
    ⟨hphase, -, -, hstep⟩
  · simp [feed, hstep, hphase]
  · simp only [feed, hstep, hphase, Option.toList_none, List.append_nil, ↓reduceIte]
    split <;> omega
  · simp [feed, hstep, hphase]

/-- A longer file has no fewer records. -/
theorem length_close_le (s : List Record × Cursor) (bytes : List UInt8) :
    (close s).length ≤ (close (bytes.foldl feed s)).length := by
  induction bytes generalizing s with
  | nil => exact Nat.le_refl _
  | cons b rest ih => exact Nat.le_trans (length_close_feed_le s b) (ih (feed s b))

def byteOrderMark : List UInt8 := [0xef, 0xbb, 0xbf]

/-- Before the first byte of a file, or behind the mark that it starts with. -/
def opening (byte : Nat) : List Record × Cursor :=
  ([], ⟨.between, origin, { origin with byte }, [], []⟩)

/-- What has been read of a file after some bytes, the first of which stands at `byte`. -/
def reading (byte : Nat) (body : List UInt8) : List Record × Cursor :=
  body.foldl feed (opening byte)

theorem records_eq_close {bytes : List UInt8} (h : ∀ rest, bytes ≠ 0xef :: 0xbb :: 0xbf :: rest) :
    records bytes = close (reading 0 bytes) := by
  rw [reading, ← append_scan]
  exact records.eq_2 bytes h

/-- A file is read from its start or from behind its byte order mark, and so is everything that it
starts with. -/
theorem exists_records (bytes : List UInt8) : ∃ mark body, bytes = mark ++ body ∧
    lineFeed ∉ mark ∧ (∀ n < mark.length, (records (mark.take n)).length ≤ 1) ∧
    ∀ front, front <+: body → records (mark ++ front) = close (reading mark.length front) := by
  by_cases h : ∃ rest, bytes = 0xef :: 0xbb :: 0xbf :: rest
  · obtain ⟨rest, rfl⟩ := h
    refine ⟨byteOrderMark, rest, rfl, by decide, by decide, fun front _ => ?_⟩
    rw [reading, ← append_scan]
    rfl
  · refine ⟨[], bytes, rfl, List.not_mem_nil, nofun, fun front hfront => records_eq_close ?_⟩
    rintro rest rfl
    obtain ⟨more, rfl⟩ := hfront
    exact h ⟨rest ++ more, rfl⟩

end RoadTrip.Tsv
