import Mathlib.Data.List.DropRight
import RoadTrip.Text.Blank
import RoadTrip.Text.Utf8

/-!
# Trimmed text and its bytes

What trimming leaves has no blanks at its ends, and text without them is left alone. Bytes decode to
the text that they encode, if there is one (`decode_eq_ok_iff`, `decode_eq_error_iff`). Trimming
them first makes no difference to that (`isText_strip`) and removes no more than trimming the text
does (`strip_strip_isBlankAscii`).
-/

namespace RoadTrip.Text

/-! ## Trimming -/

section

variable {β : Type} {p : β → Bool} {l : List β}

/-- A list that neither starts nor ends with an element that has a property. -/
structure Stripped (p : β → Bool) (l : List β) : Prop where
  head : ∀ a ∈ l.head?, p a = false
  last : ∀ a ∈ l.getLast?, p a = false

theorem dropWhile_eq_self (h : ∀ a ∈ l.head?, p a = false) : l.dropWhile p = l := by
  cases l with
  | nil => rfl
  | cons a rest => exact List.dropWhile_cons_of_neg (by simp [h a rfl])

theorem head?_dropWhile {a : β} (h : a ∈ (l.dropWhile p).head?) : p a = false := by
  have hnot := List.head?_dropWhile_not p l
  rw [Option.mem_def.1 h] at hnot
  exact hnot

theorem Stripped.strip_eq_self (h : Stripped p l) : strip p l = l := by
  have hlast : l.reverse.dropWhile p = l.reverse :=
    dropWhile_eq_self (by rw [List.head?_reverse]; exact h.last)
  rw [strip, dropWhile_eq_self h.head, hlast, List.reverse_reverse]

theorem stripped_strip (p : β → Bool) (l : List β) : Stripped p (strip p l) where
  head a h := by
    -- the first element is the last that `dropWhile` leaves of the reversed list
    rw [strip, List.head?_reverse] at h
    obtain ⟨front, hfront⟩ := List.dropWhile_suffix p (l := (l.dropWhile p).reverse)
    have hlast : a ∈ (l.dropWhile p).reverse.getLast? := by
      rw [← hfront]
      exact List.mem_getLast?_append_of_mem_getLast? h
    rw [List.getLast?_reverse] at hlast
    exact head?_dropWhile hlast
  last a h := by
    rw [strip, List.getLast?_reverse] at h
    exact head?_dropWhile h

theorem stripped_of_forall (h : ∀ a ∈ l, p a = false) : Stripped p l where
  head a ha := h a (List.mem_of_mem_head? ha)
  last a ha := h a (List.mem_of_mem_getLast? ha)

/-- What is stripped off has the property. -/
theorem exists_strip (p : β → Bool) (l : List β) : ∃ front back,
    l = front ++ strip p l ++ back ∧ (∀ a ∈ front, p a = true) ∧ ∀ a ∈ back, p a = true := by
  refine ⟨l.takeWhile p, ((l.dropWhile p).reverse.takeWhile p).reverse, ?_, ?_, ?_⟩
  · rw [strip, List.append_assoc, ← List.reverse_append, List.takeWhile_append_dropWhile,
      List.reverse_reverse, List.takeWhile_append_dropWhile]
  · intro a ha
    exact List.mem_takeWhile_imp ha
  · intro a ha
    exact List.mem_takeWhile_imp (List.mem_reverse.1 ha)

theorem strip_append {front back : List β} (hfront : ∀ a ∈ front, p a = true)
    (hback : ∀ a ∈ back, p a = true) : strip p (front ++ l ++ back) = strip p l := by
  have hreverse : ∀ a ∈ back.reverse, p a = true := by simpa using hback
  rw [strip, strip, List.append_assoc, List.dropWhile_append_of_pos hfront, List.dropWhile_append]
  split
  · rename_i hempty
    rw [List.isEmpty_iff.1 hempty, List.dropWhile_eq_nil_iff.2 hback]
  · rw [List.reverse_append, List.dropWhile_append_of_pos hreverse]

end

/-- A text without blanks at its ends. -/
abbrev Trimmed (s : String) : Prop := Stripped isBlank s.toList

theorem trimmed_trim (s : String) : Trimmed (trim s) := by
  rw [Trimmed, trim, String.toList_ofList]
  exact stripped_strip isBlank s.toList

theorem Trimmed.trim_eq_self {s : String} (h : Trimmed s) : trim s = s := by
  rw [trim, h.strip_eq_self, String.ofList_toList]

/-! ## Bytes -/

/-- The bytes that encode some characters. -/
def utf8 (cs : List Char) : List UInt8 := cs.flatMap String.utf8EncodeChar

variable {c : Char} {b : UInt8} {cs ds : List Char}

theorem utf8_singleton : utf8 [c] = String.utf8EncodeChar c := List.flatMap_singleton _ c

theorem utf8_cons : utf8 (c :: cs) = String.utf8EncodeChar c ++ utf8 cs := List.flatMap_cons

theorem utf8_append : utf8 (cs ++ ds) = utf8 cs ++ utf8 ds := List.flatMap_append

theorem toList_loop (bytes : ByteArray) (i : Nat) (acc : List UInt8) :
    ByteArray.toList.loop bytes i acc = acc.reverse ++ bytes.data.toList.drop i := by
  fun_induction ByteArray.toList.loop bytes i acc with
  | case1 i acc h ih =>
    have hi : i < bytes.data.toList.length := by simpa using h
    rw [ih, List.drop_eq_getElem_cons hi]
    simp [ByteArray.get!, h]
  | case2 i acc h =>
    rw [List.drop_eq_nil_of_le (by simpa using Nat.le_of_not_lt h), List.append_nil]

theorem toUTF8_ofList (cs : List Char) : (String.ofList cs).toUTF8.toList = utf8 cs := by
  rw [ByteArray.toList, toList_loop, String.toUTF8_eq_toByteArray, String.toByteArray_ofList,
    List.utf8Encode, List.toList_data_toByteArray]
  rfl

theorem toByteArray_utf8 (s : String) : (utf8 s.toList).toByteArray = s.toByteArray := by
  rw [← String.ofList_toList (s := s), String.toByteArray_ofList, String.toList_ofList]
  rfl

/-- Bytes that encode a text decode to it. -/
theorem decode_utf8 (s : String) : decode (utf8 s.toList) = .ok s := by
  rw [decode, toByteArray_utf8, String.fromUTF8?, dif_pos s.isValidUTF8]
  rfl

/-- Bytes that encode some characters. -/
def IsText (bytes : List UInt8) : Prop := ∃ cs, bytes = utf8 cs

theorem decode_eq_ok_iff {bytes : List UInt8} {s : String} :
    decode bytes = .ok s ↔ bytes = utf8 s.toList := by
  constructor
  · intro h
    rw [decode, String.fromUTF8?] at h
    by_cases hvalid : bytes.toByteArray.IsValidUTF8
    · simp only [dif_pos hvalid, Except.ok.injEq] at h
      have hs : bytes.toByteArray = s.toByteArray := by
        rw [← h]
        rfl
      rw [← List.toList_data_toByteArray (l := bytes), hs, ← toByteArray_utf8,
        List.toList_data_toByteArray]
    · simp only [dif_neg hvalid] at h
      cases h
  · rintro rfl
    exact decode_utf8 s

theorem decode_eq_error_iff {bytes : List UInt8} {valid : Nat} : decode bytes = .error valid ↔
    ¬ IsText bytes ∧ valid = validPrefix bytes.toByteArray 0 := by
  have hok : IsText bytes ↔ ∃ s, decode bytes = .ok s := by
    constructor
    · rintro ⟨cs, rfl⟩
      refine ⟨String.ofList cs, decode_eq_ok_iff.2 ?_⟩
      rw [String.toList_ofList]
    · rintro ⟨s, hs⟩
      exact ⟨s.toList, decode_eq_ok_iff.1 hs⟩
  rw [hok, decode]
  cases String.fromUTF8? bytes.toByteArray with
  | some s => simp
  | none => simp [eq_comm]

/-- A character is encoded by its own code or by bytes that are no ASCII codes. -/
theorem toNat_of_mem_utf8EncodeChar (h : b ∈ String.utf8EncodeChar c) :
    b.toNat = c.toNat ∨ 0x80 ≤ b.toNat := by
  have hsize (n : Nat) : (UInt8.ofNat n).toNat = n % 256 := UInt8.toNat_ofNat'
  unfold String.utf8EncodeChar at h
  dsimp only at h
  split at h
  · rename_i hascii
    rw [List.mem_singleton.1 h, hsize]
    exact .inl (Nat.mod_eq_of_lt (by omega))
  · right
    split at h
    · simp only [List.mem_cons, List.not_mem_nil, or_false] at h
      rcases h with rfl | rfl <;> rw [hsize] <;> omega
    split at h
    · simp only [List.mem_cons, List.not_mem_nil, or_false] at h
      rcases h with rfl | rfl | rfl <;> rw [hsize] <;> omega
    · simp only [List.mem_cons, List.not_mem_nil, or_false] at h
      rcases h with rfl | rfl | rfl | rfl <;> rw [hsize] <;> omega

/-- An ASCII code encodes nothing but its own character. -/
theorem eq_of_mem_utf8EncodeChar (h : b ∈ String.utf8EncodeChar c) (hb : b.toNat < 0x80) :
    c = Char.ofNat b.toNat := by
  rw [(toNat_of_mem_utf8EncodeChar h).resolve_right (Nat.not_le.2 hb), Char.ofNat_toNat]

theorem isBlank_of_mem_utf8EncodeChar (h : b ∈ String.utf8EncodeChar c)
    (hb : isBlankByte b = true) : isBlank c = true := by
  simp only [isBlankByte, Bool.or_eq_true, beq_iff_eq] at hb
  rcases hb with (((rfl | rfl) | rfl) | rfl) | rfl <;>
    rw [eq_of_mem_utf8EncodeChar h (by decide)] <;> rfl

theorem exists_utf8EncodeChar (c : Char) : ∃ first rest, String.utf8EncodeChar c = first :: rest :=
  List.exists_cons_of_length_pos (by rw [String.length_utf8EncodeChar]; exact c.utf8Size_pos)

theorem eq_nil_of_utf8 (h : utf8 cs = []) : cs = [] := by
  cases cs with
  | nil => rfl
  | cons c rest =>
    obtain ⟨first, more, hchar⟩ := exists_utf8EncodeChar c
    rw [utf8_cons, hchar] at h
    cases h

/-! ## Trimming the bytes of a text -/

/-- A character that trimming bytes removes. -/
def isBlankAscii (c : Char) : Bool := (String.utf8EncodeChar c).all isBlankByte

theorem isBlankByte_lt (hb : isBlankByte b = true) : b.toNat < 0x80 := by
  simp only [isBlankByte, Bool.or_eq_true, beq_iff_eq] at hb
  rcases hb with (((rfl | rfl) | rfl) | rfl) | rfl <;> decide

/-- A blank byte encodes a character. -/
theorem utf8EncodeChar_of_isBlankByte (hb : isBlankByte b = true) :
    String.utf8EncodeChar (Char.ofNat b.toNat) = [b] := by
  simp only [isBlankByte, Bool.or_eq_true, beq_iff_eq] at hb
  rcases hb with (((rfl | rfl) | rfl) | rfl) | rfl <;> rfl

theorem isBlankAscii_of_mem_utf8EncodeChar (h : b ∈ String.utf8EncodeChar c)
    (hb : isBlankByte b = true) : isBlankAscii c = true := by
  rw [isBlankAscii, eq_of_mem_utf8EncodeChar h (isBlankByte_lt hb),
    utf8EncodeChar_of_isBlankByte hb, List.all_cons, hb]
  rfl

theorem isBlank_of_isBlankAscii (h : isBlankAscii c = true) : isBlank c = true := by
  obtain ⟨first, more, hchar⟩ := exists_utf8EncodeChar c
  have hfirst : first ∈ String.utf8EncodeChar c := hchar ▸ List.mem_cons_self
  exact isBlank_of_mem_utf8EncodeChar hfirst (List.all_eq_true.1 h first hfirst)

theorem forall_isBlankByte_utf8 (h : ∀ c ∈ cs, isBlankAscii c = true) :
    ∀ b ∈ utf8 cs, isBlankByte b = true := by
  intro b hb
  obtain ⟨c, hc, hb⟩ := List.mem_flatMap.1 hb
  exact List.all_eq_true.1 (h c hc) b hb

/-- Bytes are stripped if the characters that they encode are. -/
theorem stripped_utf8 (h : Stripped isBlankAscii cs) : Stripped isBlankByte (utf8 cs) := by
  have hbyte {c : Char} {b : UInt8} (hc : isBlankAscii c = false)
      (hb : b ∈ String.utf8EncodeChar c) : isBlankByte b = false := by
    by_contra hblank
    rw [Bool.not_eq_false] at hblank
    rw [isBlankAscii_of_mem_utf8EncodeChar hb hblank] at hc
    cases hc
  constructor
  · intro b hb
    cases cs with
    | nil => cases hb
    | cons c rest =>
      obtain ⟨first, more, hchar⟩ := exists_utf8EncodeChar c
      rw [utf8_cons, hchar] at hb
      cases hb
      exact hbyte (h.head c rfl) (hchar ▸ List.mem_cons_self)
  · intro b hb
    rcases List.eq_nil_or_concat' cs with rfl | ⟨front, c, rfl⟩
    · cases hb
    · have hne : String.utf8EncodeChar c ≠ [] := by
        obtain ⟨first, more, hchar⟩ := exists_utf8EncodeChar c
        rw [hchar]
        exact List.cons_ne_nil first more
      rw [utf8_append, utf8_singleton, List.getLast?_append_of_ne_nil _ hne] at hb
      exact hbyte (h.last c List.getLast?_concat) (List.mem_of_mem_getLast? hb)

/-- Trimming the bytes of a text trims the text. -/
theorem strip_utf8 (cs : List Char) :
    strip isBlankByte (utf8 cs) = utf8 (strip isBlankAscii cs) := by
  obtain ⟨front, back, hcs, hfront, hback⟩ := exists_strip isBlankAscii cs
  have hstripped : Stripped isBlankByte (utf8 (strip isBlankAscii cs)) :=
    stripped_utf8 (stripped_strip isBlankAscii cs)
  conv_lhs => rw [hcs, utf8_append, utf8_append]
  rw [strip_append (forall_isBlankByte_utf8 hfront) (forall_isBlankByte_utf8 hback),
    hstripped.strip_eq_self]

theorem strip_strip_isBlankAscii (cs : List Char) :
    strip isBlank (strip isBlankAscii cs) = strip isBlank cs := by
  obtain ⟨front, back, hcs, hfront, hback⟩ := exists_strip isBlankAscii cs
  conv_rhs => rw [hcs]
  rw [strip_append (fun c hc => isBlank_of_isBlankAscii (hfront c hc))
    fun c hc => isBlank_of_isBlankAscii (hback c hc)]

theorem isText_of_forall_isBlankByte {bytes : List UInt8}
    (h : ∀ b ∈ bytes, isBlankByte b = true) : IsText bytes := by
  refine ⟨bytes.map fun b => Char.ofNat b.toNat, ?_⟩
  induction bytes with
  | nil => rfl
  | cons b rest ih =>
    rw [List.map_cons, utf8_cons, utf8EncodeChar_of_isBlankByte (h b List.mem_cons_self),
      ← ih fun a ha => h a (List.mem_cons_of_mem b ha)]
    rfl

/-- Bytes that are no text do not become one by trimming. -/
theorem isText_strip {bytes : List UInt8} : IsText (strip isBlankByte bytes) ↔ IsText bytes := by
  constructor
  · rintro ⟨cs, hcs⟩
    obtain ⟨front, back, hbytes, hfront, hback⟩ := exists_strip isBlankByte bytes
    obtain ⟨fs, rfl⟩ := isText_of_forall_isBlankByte hfront
    obtain ⟨bs, rfl⟩ := isText_of_forall_isBlankByte hback
    refine ⟨fs ++ cs ++ bs, ?_⟩
    rw [hbytes, hcs, utf8_append, utf8_append]
  · rintro ⟨cs, rfl⟩
    exact ⟨strip isBlankAscii cs, strip_utf8 cs⟩

end RoadTrip.Text
