import RoadTrip.Proofs.Tsv.Rows

/-!
# Files one after another

Behind a line feed outside quotes a file is read as if it started there, but for the positions of
its records (`fields_append`): the cursor is between two records (`EndsLine.between`), where it
holds nothing of a record (`Clean`), and cursors that differ in their positions read the same
fields (`Cursor.Alike`). So the records that are appended to a file with a header are the data
records of that header with what is appended (`dataRecords_append`).
-/

namespace RoadTrip.Tsv

/-! ## Cursors that differ in their positions -/

/-- The same part of a record, maybe read elsewhere. -/
structure Cursor.Alike (c d : Cursor) : Prop where
  phase : c.phase = d.phase
  fields : c.fields = d.fields
  field : c.field = d.field

namespace Cursor

variable {c d : Cursor}

theorem Alike.fields_record (h : c.Alike d) : c.record.fields = d.record.fields := by
  unfold record endField
  dsimp only
  rw [h.fields, h.field]

/-- One byte reads alike from cursors that are alike. -/
theorem Alike.step (h : c.Alike d) (b : UInt8) : (c.step b).2.Alike (d.step b).2 ∧
    (c.step b).1.map (·.fields) = (d.step b).1.map (·.fields) := by
  obtain ⟨phase, start, here, fields, field⟩ := c
  obtain ⟨_, start', here', _, _⟩ := d
  obtain ⟨rfl, rfl, rfl⟩ := h
  unfold Cursor.step unquoted
  -- where to go on depends on the phase and the byte, never on a position
  cases phase <;> cases b == quote <;> cases b == tab <;> cases endsLine b <;>
    exact ⟨⟨rfl, rfl, rfl⟩, rfl⟩

end Cursor

theorem scan_alike {c d : Cursor} (h : c.Alike d) (bytes : List UInt8) :
    (scan c bytes).map (·.fields) = (scan d bytes).map (·.fields) := by
  induction bytes generalizing c d with
  | nil =>
    rw [scan, scan, h.phase]
    split
    · rfl
    · rw [List.map_singleton, List.map_singleton, h.fields_record]
  | cons b rest ih =>
    obtain ⟨hnext, hfound⟩ := h.step b
    rw [scan, scan]
    rcases hc : c.step b with ⟨found, next⟩
    rcases hd : d.step b with ⟨found', next'⟩
    rw [hc, hd] at hnext hfound
    cases found with
    | none =>
      cases found' with
      | none => exact ih hnext
      | some r' => cases hfound
    | some r =>
      cases found' with
      | none => cases hfound
      | some r' =>
        have hfields : r.fields = r'.fields := Option.some.inj hfound
        rw [List.map_cons, List.map_cons, ih hnext, hfields]

/-! ## Between two records -/

/-- Between two records nothing of a record has been read. -/
def Clean (c : Cursor) : Prop := c.phase = .between → c.fields = [] ∧ c.field = []

theorem Clean.feed {s : List Record × Cursor} (h : Clean s.2) (b : UInt8) :
    Clean (feed s b).2 := by
  unfold Tsv.feed Clean
  rcases s.2.step_cases b with ⟨hphase, -, hstep⟩ | ⟨next, hstep, hphase, -⟩ | ⟨-, -, -, hstep⟩
  · rw [hstep]
    exact fun _ => h hphase
  · rw [hstep]
    exact fun hbetween => absurd hbetween hphase
  · rw [hstep]
    exact fun _ => ⟨rfl, rfl⟩

theorem Clean.foldl_feed {s : List Record × Cursor} (h : Clean s.2) (bytes : List UInt8) :
    Clean (bytes.foldl Tsv.feed s).2 := by
  induction bytes generalizing s with
  | nil => exact h
  | cons b rest ih => exact ih (h.feed b)

/-! ## What has been read of a file -/

/-- The records and the cursor after the bytes of a file, behind its byte order mark. -/
def after : List UInt8 → List Record × Cursor
  | 0xef :: 0xbb :: 0xbf :: rest => reading byteOrderMark.length rest
  | bytes => reading 0 bytes

theorem records_eq_close_after (bytes : List UInt8) : records bytes = close (after bytes) := by
  unfold after
  split
  · rw [reading, ← append_scan]
    rfl
  · rename_i hmark
    exact records_eq_close fun rest h => hmark rest h

theorem clean_after (bytes : List UInt8) : Clean (after bytes).2 := by
  unfold after
  split <;> exact Clean.foldl_feed (fun _ => ⟨rfl, rfl⟩) _

/-- Bytes behind a line feed, or from one on, are no part of a byte order mark. -/
theorem after_append {front back : List UInt8} (h : lineFeed ∈ front ++ back.take 1) :
    after (front ++ back) = back.foldl feed (after front) := by
  have hmark : ∀ rest, front ++ back = byteOrderMark ++ rest → byteOrderMark <+: front := by
    intro rest heq
    rcases List.append_eq_append_iff.1 heq with ⟨more, hfront, hback⟩ | ⟨more, hfront, -⟩
    · cases more with
      | nil => exact ⟨[], by rw [hfront, List.append_nil, List.append_nil]⟩
      | cons b more =>
        have hmem : lineFeed ∈ byteOrderMark := by
          rw [hfront]
          rw [hback] at h
          rcases List.mem_append.1 h with h | h
          · exact List.mem_append_left _ h
          · exact List.mem_append_right front (List.mem_singleton.1 h ▸ List.mem_cons_self)
        exact absurd hmem (by decide)
    · exact ⟨more, hfront.symm⟩
  -- the file starts with a mark exactly if its front does
  by_cases hfront : byteOrderMark <+: front
  · obtain ⟨rest, rfl⟩ := hfront
    exact List.foldl_append
  · have hne : ∀ rest, front ≠ 0xef :: 0xbb :: 0xbf :: rest := by
      rintro rest rfl
      exact hfront ⟨rest, rfl⟩
    have hne' : ∀ rest, front ++ back ≠ 0xef :: 0xbb :: 0xbf :: rest := by
      intro rest heq
      exact hfront (hmark rest heq)
    rw [after.eq_2 _ hne, after.eq_2 _ hne', reading, reading, List.foldl_append]

/-! ## Ends of lines -/

/-- The next byte is inside quotes. -/
def InQuotes (bytes : List UInt8) : Prop := (after bytes).2.phase = .quoted

/-- Some bytes end with a line feed outside quotes. -/
def EndsLine (bytes : List UInt8) : Prop := ∃ front, bytes = front ++ [lineFeed] ∧ ¬ InQuotes front

/-- Some bytes are one record and the line feed behind it. -/
structure IsHeader (bytes : List UInt8) : Prop where
  ends : EndsLine bytes
  one : (records bytes).length = 1

variable {front back : List UInt8}

theorem Cursor.phase_step_lineFeed {c : Cursor} (h : c.phase ≠ .quoted) :
    (c.step lineFeed).2.phase = .between := by
  by_cases hphase : c.phase = .between
  · rw [Cursor.step_lineEnd hphase rfl]
    exact hphase
  · have hquote : lineFeed ≠ quote := by decide
    rw [Cursor.step_unquoted h (fun hbetween => absurd hbetween hphase)
      (fun heq => absurd heq hquote), Cursor.unquoted_of_endsLine rfl]
    rfl

theorem EndsLine.between (h : EndsLine front) : (after front).2.phase = .between := by
  obtain ⟨init, rfl, hquoted⟩ := h
  rw [after_append (List.mem_append_right init List.mem_cons_self)]
  exact Cursor.phase_step_lineFeed hquoted

theorem EndsLine.lineFeed_mem (h : EndsLine front) : lineFeed ∈ front := by
  obtain ⟨init, rfl, -⟩ := h
  exact List.mem_append_right init List.mem_cons_self

/-- The records in bytes that follow the end of a line. -/
def following (bytes : List UInt8) : List Record := scan (opening 0).2 bytes

/-- **Behind the end of a line** reading starts anew. -/
theorem fields_append (h : EndsLine front) : (records (front ++ back)).map (·.fields) =
    (records front).map (·.fields) ++ (following back).map (·.fields) := by
  have hphase := h.between
  obtain ⟨hfields, hfield⟩ := clean_after front hphase
  have halike : (after front).2.Alike (opening 0).2 := ⟨hphase, hfields, hfield⟩
  have hafter : after (front ++ back) = back.foldl feed (after front) :=
    after_append (List.mem_append_left _ h.lineFeed_mem)
  rw [records_eq_close_after, records_eq_close_after, hafter, ← append_scan, close, if_pos hphase,
    List.map_append, following, scan_alike halike]

/-- Records that are appended to a file are data records of its header. -/
theorem dataRecords_append {header body : List UInt8} (hheader : IsHeader header)
    (hbody : body = [] ∨ EndsLine (header ++ body)) (more : List UInt8) :
    (dataRecords (header ++ body ++ more)).map (·.fields) =
      (dataRecords (header ++ body)).map (·.fields) ++
        (dataRecords (header ++ more)).map (·.fields) ∧
    width (header ++ body ++ more) = width (header ++ body) ∧
    width (header ++ more) = width (header ++ body) := by
  obtain ⟨r, hr⟩ := List.length_eq_one_iff.1 hheader.one
  have hends : EndsLine (header ++ body) := by
    rcases hbody with rfl | hends
    · rw [List.append_nil]
      exact hheader.ends
    · exact hends
  have hcons (bytes : List UInt8) : (records (header ++ bytes)).map (·.fields) =
      r.fields :: (following bytes).map (·.fields) := by
    rw [fields_append hheader.ends, hr, List.map_singleton, List.singleton_append]
  have hall : (records (header ++ body ++ more)).map (·.fields) =
      r.fields :: ((following body).map (·.fields) ++ (following more).map (·.fields)) := by
    rw [fields_append hends, hcons, List.cons_append]
  have hdata {bytes : List UInt8} {fs : List (List (List UInt8))}
      (h : (records bytes).map (·.fields) = r.fields :: fs) :
      (dataRecords bytes).map (·.fields) = fs ∧ width bytes = r.fields.length := by
    unfold dataRecords width
    cases hrecords : records bytes with
    | nil =>
      rw [hrecords] at h
      cases h
    | cons first rest =>
      rw [hrecords, List.map_cons, List.cons.injEq] at h
      exact ⟨h.2, congrArg List.length h.1⟩
  obtain ⟨hdata₁, hwidth₁⟩ := hdata (hcons body)
  obtain ⟨hdata₂, hwidth₂⟩ := hdata (hcons more)
  obtain ⟨hdata₃, hwidth₃⟩ := hdata hall
  rw [hdata₁, hdata₂, hdata₃, hwidth₁, hwidth₂, hwidth₃]
  exact ⟨rfl, rfl, rfl⟩

end RoadTrip.Tsv
