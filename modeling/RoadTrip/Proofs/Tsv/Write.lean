import Mathlib.Data.List.Forall2
import RoadTrip.Proofs.Tsv.Rows
import RoadTrip.Tsv.Write

/-!
# Reading what was written

The scan of a written file, from the bytes of one field up to those of all records. Only the
positions that it reaches are left open: its fields are the bytes of the texts that were written
(`records_encode`), and texts without blanks at their ends come back as the cells of its rows
(`forall₂_rows`).
-/

namespace RoadTrip

/-- What holds of the members of the second list may be used of each pair. -/
theorem forall₂_imp_of_mem {β γ : Type} {R S : β → γ → Prop} {l : List β} {l' : List γ}
    (h : List.Forall₂ R l l') (himp : ∀ x, ∀ y ∈ l', R x y → S x y) : List.Forall₂ S l l' := by
  obtain ⟨hlength, hzip⟩ := List.forall₂_iff_zip.1 h
  refine List.forall₂_iff_zip.2 ⟨hlength, fun hmem => ?_⟩
  exact himp _ _ (List.of_mem_zip hmem).2 (hzip hmem)

namespace Tsv

open Text

/-! ## One field -/

/-- A byte that means something in an unquoted field. -/
def special (b : UInt8) : Bool := b == tab || b == quote || endsLine b

variable {found : List Record} {start here : Position} {fields : List (List UInt8)}
  {field bytes : List UInt8} {phase : Phase}

theorem feed_plain {b : UInt8} (hb : special b = false) (hquoted : phase ≠ .quoted) :
    feed (found, ⟨phase, start, here, fields, field⟩) b =
      (found, ⟨.plain, start, advance here b, fields, b :: field⟩) := by
  simp only [special, Bool.or_eq_false_iff, beq_eq_false_iff_ne] at hb
  rw [feed, Cursor.step_unquoted hquoted (fun _ => hb.2) (fun h => absurd h hb.1.2)]
  simp [Cursor.unquoted, Cursor.keep, hb.1.1, hb.2]

theorem feed_quoted {b : UInt8} (hb : b ≠ quote) :
    feed (found, ⟨.quoted, start, here, fields, field⟩) b =
      (found, ⟨.quoted, start, advance here b, fields, b :: field⟩) := by
  rw [feed, Cursor.step_quoted rfl hb]
  simp [Cursor.keep]

/-- Bytes that are kept one by one are kept together. -/
theorem foldl_feed_keep (h : ∀ b ∈ bytes, ∀ here field,
      feed (found, ⟨phase, start, here, fields, field⟩) b =
        (found, ⟨phase, start, advance here b, fields, b :: field⟩)) :
    bytes.foldl feed (found, ⟨phase, start, here, fields, field⟩) =
      (found, ⟨phase, start, bytes.foldl advance here, fields, bytes.reverse ++ field⟩) := by
  induction bytes generalizing here field with
  | nil => rfl
  | cons b rest ih =>
    rw [List.foldl_cons, h b List.mem_cons_self, ih fun e he => h e (List.mem_cons_of_mem b he)]
    simp

/-- Two quotes in a quoted field stand for one. -/
theorem foldl_feed_quotes : [quote, quote].foldl feed
    (found, ⟨.quoted, start, here, fields, field⟩) =
      (found, ⟨.quoted, start, [quote, quote].foldl advance here, fields, quote :: field⟩) := by
  simp only [List.foldl_cons, List.foldl_nil, feed]
  rw [Cursor.step_endQuote rfl, Cursor.step_secondQuote rfl]
  simp [Cursor.keep]

variable {c : Char} {b : UInt8} {s : String}

theorem special_of_mem_utf8EncodeChar (h : b ∈ String.utf8EncodeChar c)
    (hc : needsQuotes c = false) : special b = false := by
  by_contra hb
  simp only [special, endsLine, Bool.not_eq_false, Bool.or_eq_true, beq_iff_eq] at hb
  rcases hb with (rfl | rfl) | rfl | rfl <;>
    rw [eq_of_mem_utf8EncodeChar h (by decide)] at hc <;> cases hc

theorem ne_quote_of_mem_utf8EncodeChar (h : b ∈ String.utf8EncodeChar c) (hc : c ≠ '"') :
    b ≠ quote := by
  rintro rfl
  exact hc (eq_of_mem_utf8EncodeChar h (by decide))

/-- The inside of a quoted field, with its quotes doubled. -/
theorem foldl_feed_doubled (cs : List Char) :
    let doubled := utf8 (cs.flatMap fun c => if c == '"' then ['"', '"'] else [c])
    doubled.foldl feed (found, ⟨.quoted, start, here, fields, field⟩) =
      (found, ⟨.quoted, start, doubled.foldl advance here, fields,
        (utf8 cs).reverse ++ field⟩) := by
  induction cs generalizing here field with
  | nil => rfl
  | cons c rest ih =>
    simp only [List.flatMap_cons, utf8_append, List.foldl_append]
    split
    · rename_i hc
      rw [beq_iff_eq] at hc
      subst hc
      rw [show utf8 ['"', '"'] = [quote, quote] from rfl, foldl_feed_quotes, ih]
      simp [utf8_cons, show String.utf8EncodeChar '"' = [quote] from rfl]
    · rename_i hc
      rw [beq_iff_eq] at hc
      have hkeep : ∀ b ∈ String.utf8EncodeChar c, ∀ here field,
          feed (found, ⟨.quoted, start, here, fields, field⟩) b =
            (found, ⟨.quoted, start, advance here b, fields, b :: field⟩) :=
        fun b hb _ _ => feed_quoted (ne_quote_of_mem_utf8EncodeChar hb hc)
      rw [utf8_singleton, foldl_feed_keep hkeep, ih]
      simp [utf8_cons]

/-- After a written field its bytes are the current field. No byte has been taken for the end of the
field, and the next one can end it. -/
theorem foldl_feed_encodeField (found : List Record) (start here : Position)
    (fields : List (List UInt8)) (s : String) (hphase : phase = .between ∨ phase = .start) :
    ∃ after, (utf8 (encodeField s)).foldl feed (found, ⟨phase, start, here, fields, []⟩) =
      (found, ⟨after, start, (utf8 (encodeField s)).foldl advance here, fields,
        (utf8 s.toList).reverse⟩) ∧
      after ≠ .quoted ∧ (after = .between → phase = .between ∧ s = "") := by
  have hunquoted : phase ≠ .quoted := by rcases hphase with rfl | rfl <;> decide
  unfold encodeField
  split
  · refine ⟨.afterQuote, ?_, by decide, fun h => by cases h⟩
    have hopen : feed (found, ⟨phase, start, here, fields, []⟩) quote =
        (found, ⟨.quoted, start, advance here quote, fields, []⟩) := by
      rw [feed, Cursor.step_quote hphase]
      simp
    simp only [utf8_cons, utf8_append, show String.utf8EncodeChar '"' = [quote] from rfl,
      List.foldl_append, List.foldl_cons, List.foldl_nil, hopen, foldl_feed_doubled]
    rw [feed, Cursor.step_endQuote rfl]
    simp [utf8]
  · rename_i hplain
    have hbytes : ∀ b ∈ utf8 s.toList, special b = false := by
      intro b hb
      obtain ⟨c, hc, hb⟩ := List.mem_flatMap.1 hb
      refine special_of_mem_utf8EncodeChar hb ?_
      simp only [List.any_eq_true, not_exists, not_and, Bool.not_eq_true] at hplain
      exact hplain c hc
    cases hs : utf8 s.toList with
    | nil =>
      have hempty : s = "" := String.toList_eq_nil_iff.1 (eq_nil_of_utf8 hs)
      exact ⟨phase, rfl, hunquoted, fun h => ⟨h, hempty⟩⟩
    | cons b rest =>
      rw [hs] at hbytes
      refine ⟨.plain, ?_, by decide, fun h => by cases h⟩
      -- the first byte leads to the phase in which the others are kept
      rw [List.foldl_cons, feed_plain (hbytes b List.mem_cons_self) hunquoted,
        foldl_feed_keep fun e he _ _ =>
          feed_plain (hbytes e (List.mem_cons_of_mem b he)) (by decide)]
      simp

/-! ## Records -/

/-- A record has the bytes of some texts for its fields. -/
def Record.Holds (r : Record) (texts : List String) : Prop :=
  r.fields = texts.map fun s => utf8 s.toList

theorem feed_tab (hquoted : phase ≠ .quoted) :
    feed (found, ⟨phase, start, here, fields, field⟩) tab =
      (found, ⟨.start, start, advance here tab, field.reverse :: fields, []⟩) := by
  rw [feed, Cursor.step_unquoted hquoted (fun _ => rfl) (fun h => absurd h (by decide))]
  simp [Cursor.unquoted, Cursor.endField]

/-- After the written fields of a record the next byte can end the last of them and the record. -/
theorem foldl_feed_encodeFields (found : List Record) (start here : Position)
    (fields : List (List UInt8)) {texts : List String} (hne : texts ≠ [])
    (hphase : phase = .between ∨ phase = .start) :
    ∃ c, (utf8 (encodeFields texts)).foldl feed (found, ⟨phase, start, here, fields, []⟩) =
      (found, c) ∧ c.phase ≠ .quoted ∧ (c.phase = .between → phase = .between ∧ texts = [""]) ∧
      c.record.fields = fields.reverse ++ texts.map fun s => utf8 s.toList := by
  induction texts generalizing phase here fields with
  | nil => exact absurd rfl hne
  | cons s rest ih =>
    obtain ⟨after, hfeed, hquoted, hbetween⟩ :=
      foldl_feed_encodeField found start here fields s hphase
    cases rest with
    | nil =>
      refine ⟨_, hfeed, hquoted, fun h => ?_, ?_⟩
      · obtain ⟨hphase, rfl⟩ := hbetween h
        exact ⟨hphase, rfl⟩
      · simp [Cursor.record, Cursor.endField]
    | cons t rest =>
      obtain ⟨c, hc, hq, hb, hrecord⟩ := ih
        (advance ((utf8 (encodeField s)).foldl advance here) tab) (utf8 s.toList :: fields)
        (List.cons_ne_nil t rest) (.inr rfl)
      refine ⟨c, ?_, hq, fun h => ?_, ?_⟩
      · have hfields : utf8 (encodeFields (s :: t :: rest)) =
            utf8 (encodeField s) ++ tab :: utf8 (encodeFields (t :: rest)) := utf8_append
        rw [hfields, List.foldl_append, hfeed, List.foldl_cons, feed_tab hquoted,
          List.reverse_reverse, hc]
      · cases (hb h).1
      · rw [hrecord, List.reverse_cons, List.append_assoc]
        rfl

/-- A record that is no empty line: it has fields, and a single one has text. -/
structure Shown (texts : List String) : Prop where
  ne_nil : texts ≠ []
  ne_empty : texts ≠ [""]

theorem foldl_feed_encodeRecord (found : List Record) (start here : Position)
    {texts : List String} (h : Shown texts) :
    ∃ r stop, (utf8 (encodeRecord texts)).foldl feed (found, ⟨.between, start, here, [], []⟩) =
      (found ++ [r], ⟨.between, stop, stop, [], []⟩) ∧ r.Holds texts := by
  obtain ⟨c, hc, hquoted, hbetween, hrecord⟩ :=
    foldl_feed_encodeFields found start here [] h.ne_nil (.inl rfl)
  have hphase : c.phase ≠ .between := fun hphase => h.ne_empty (hbetween hphase).2
  have hline : c.step lineFeed =
      (some c.record, { c with here := advance c.here lineFeed }.nextRecord) := by
    rw [Cursor.step_unquoted hquoted (fun h' => absurd h' hphase) (fun h' => absurd h' (by decide)),
      Cursor.unquoted_of_endsLine rfl]
  have hbytes : utf8 (encodeRecord texts) = utf8 (encodeFields texts) ++ [lineFeed] := utf8_append
  refine ⟨c.record, { advance c.here lineFeed with record := c.here.record + 1 }, ?_, hrecord⟩
  rw [hbytes, List.foldl_append, hc, List.foldl_cons, List.foldl_nil, feed, hline]
  rfl

theorem foldl_feed_encode (found : List Record) (start here : Position)
    {all : List (List String)} (h : ∀ texts ∈ all, Shown texts) :
    ∃ rs start' here', (utf8 (all.flatMap encodeRecord)).foldl feed
        (found, ⟨.between, start, here, [], []⟩) =
      (found ++ rs, ⟨.between, start', here', [], []⟩) ∧ List.Forall₂ Record.Holds rs all := by
  induction all generalizing found start here with
  | nil => exact ⟨[], start, here, by rw [List.append_nil]; rfl, .nil⟩
  | cons texts rest ih =>
    obtain ⟨r, stop, hr, hholds⟩ :=
      foldl_feed_encodeRecord found start here (h texts List.mem_cons_self)
    obtain ⟨rs, start', here', hrs, hall⟩ :=
      ih (found ++ [r]) stop stop fun texts ht => h texts (List.mem_cons_of_mem _ ht)
    refine ⟨r :: rs, start', here', ?_, .cons hholds hall⟩
    rw [List.flatMap_cons, utf8_append, List.foldl_append, hr, hrs, List.append_assoc]
    rfl

/-! ## Files -/

/-- The records of a written file hold the texts that were written. A file that starts with a byte
order mark would lose it, and an empty line is no record. -/
theorem records_encode {all : List (List String)} (h : ∀ texts ∈ all, Shown texts)
    (hmark : ∀ rest, (encode all).toUTF8.toList ≠ 0xef :: 0xbb :: 0xbf :: rest) :
    List.Forall₂ Record.Holds (records (encode all).toUTF8.toList) all := by
  obtain ⟨rs, start, here, hfeed, hall⟩ := foldl_feed_encode [] origin { origin with byte := 0 } h
  rw [records_eq_close hmark, encode, toUTF8_ofList, reading, opening, hfeed]
  exact hall

/-- The bytes of a trimmed text read as the text. -/
theorem reads_utf8 {s : String} (h : Trimmed s) : Reads (utf8 s.toList) s :=
  ⟨s.toList, rfl, by rw [String.ofList_toList, h.trim_eq_self]⟩

theorem row_of_holds {reported : Position} {r : Record} {texts : List String} (hr : r.Holds texts)
    (h : ∀ s ∈ texts, Trimmed s) : row texts.length reported r = .ok ⟨r.position, texts⟩ := by
  refine row_eq_ok_iff.2 ⟨by rw [hr, List.length_map], ?_, rfl⟩
  rw [hr, List.forall₂_map_left_iff, List.forall₂_same]
  intro s hs
  exact reads_utf8 (h s hs)

/-- The rows of a file whose records hold trimmed texts, as many in each as in the header. -/
theorem forall₂_rows {bytes : List UInt8} {header : List String} {body : List (List String)}
    (h : List.Forall₂ Record.Holds (records bytes) (header :: body))
    (hlength : ∀ texts ∈ body, texts.length = header.length)
    (htrimmed : ∀ texts ∈ body, ∀ s ∈ texts, Trimmed s) :
    List.Forall₂ (fun r texts => ∃ position, r = .ok ⟨position, texts⟩) (rows bytes) body := by
  have hrow {r : Record} {texts : List String} (reported : Position) (hr : r.Holds texts)
      (hmem : texts ∈ body) :
      ∃ position, row header.length reported r = .ok ⟨position, texts⟩ := by
    rw [← hlength texts hmem]
    exact ⟨_, row_of_holds hr (htrimmed texts hmem)⟩
  unfold rows
  generalize records bytes = rs at h
  cases h with
  | cons hheader hbody =>
    rename_i head rest
    have hwidth : head.fields.length = header.length := by rw [hheader, List.length_map]
    cases hbody with
    | nil => exact .nil
    | cons hfirst hrest =>
      simp only [hwidth]
      refine .cons (hrow _ hfirst List.mem_cons_self) (List.forall₂_map_left_iff.2 ?_)
      exact forall₂_imp_of_mem hrest fun r texts hmem hholds =>
        hrow r.position hholds (List.mem_cons_of_mem _ hmem)

end Tsv

end RoadTrip
