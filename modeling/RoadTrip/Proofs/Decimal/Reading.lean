import RoadTrip.Decimal.Reading
import RoadTrip.Text.Blank

/-!
# The characters of a number

A text that reads as a number has no blanks (`solid_of_read?`), so trimming leaves it alone.
-/

namespace RoadTrip.Decimal

open Text (isBlank)

/-- A text without blanks. -/
def Solid (cs : List Char) : Prop := ∀ c ∈ cs, isBlank c = false

variable {c : Char} {cs ds : List Char} {negative : Bool}

theorem Solid.cons (hc : isBlank c = false) (h : Solid cs) : Solid (c :: cs) :=
  List.forall_mem_cons.2 ⟨hc, h⟩

theorem Solid.append (h : Solid cs) (h' : Solid ds) : Solid (cs ++ ds) :=
  List.forall_mem_append.2 ⟨h, h'⟩

theorem solid_of_all (h : cs.all (fun c => !isBlank c) = true) : Solid cs := by
  intro c hc
  have hblank := List.all_eq_true.1 h c hc
  rwa [Bool.not_eq_true'] at hblank

theorem isBlank_of_isDigit (h : c.isDigit = true) : isBlank c = false := by
  simp only [Char.isDigit, Bool.and_eq_true, decide_eq_true_eq, ge_iff_le,
    UInt32.le_iff_toNat_le] at h
  have hcode : 48 ≤ c.toNat ∧ c.toNat ≤ 57 := h
  simp only [isBlank, Text.inRanges, Text.whiteSpace, List.any_cons, List.any_nil, Bool.or_false,
    Bool.or_eq_false_iff, Bool.and_eq_false_iff, decide_eq_false_iff_not]
  omega

theorem solid_of_all_isDigit (h : cs.all Char.isDigit = true) : Solid cs :=
  fun c hc => isBlank_of_isDigit (List.all_eq_true.1 h c hc)

/-- Digits in front of something without blanks. -/
theorem Solid.of_dropWhile (h : Solid (cs.dropWhile Char.isDigit)) : Solid cs := by
  rw [← List.takeWhile_append_dropWhile (p := Char.isDigit) (l := cs)]
  exact (solid_of_all_isDigit List.all_takeWhile).append h

theorem solid_of_readExponent {e : Int} (h : readExponent cs = some e) : Solid cs := by
  have hdigits {digits : List Char} {n : Int}
      (h : (if digits.isEmpty || !digits.all Char.isDigit then none else some n) = some e) :
      Solid digits := by
    split at h
    · cases h
    · rename_i hall
      simp only [Bool.or_eq_true, Bool.not_eq_true', not_or, Bool.not_eq_false] at hall
      exact solid_of_all_isDigit hall.2
  unfold readExponent at h
  split at h
  · nofun
  · rename_i c rest
    split at h
    · rename_i hc
      have hletter : isBlank c = false := by
        simp only [Bool.or_eq_true, beq_iff_eq] at hc
        rcases hc with rfl | rfl <;> rfl
      refine .cons hletter ?_
      dsimp only at h
      split at h
      · exact .cons rfl (hdigits h)
      · exact .cons rfl (hdigits h)
      · exact hdigits h
    · cases h

theorem solid_of_readUnsigned {x : Reading} (h : readUnsigned negative cs = some x) :
    Solid cs := by
  have hrest {whole fraction rest : List Char} {f : Int → Reading}
      (h : (if whole.isEmpty && fraction.isEmpty then none else (readExponent rest).map f) =
        some x) : Solid rest := by
    split at h
    · cases h
    · obtain ⟨e, he, -⟩ := Option.map_eq_some_iff.1 h
      exact solid_of_readExponent he
  refine .of_dropWhile ?_
  unfold readUnsigned at h
  dsimp only at h
  split at h
  · rename_i hpoint
    rw [hpoint]
    exact .cons rfl (.of_dropWhile (hrest h))
  · exact hrest h

theorem toLower_of_isBlank (h : isBlank c = true) : c.toLower = c := by
  have hcode : ¬(c.val ≥ 65 ∧ c.val ≤ 90) := by
    rintro ⟨hlow, hhigh⟩
    have hlow : 65 ≤ c.toNat := UInt32.le_iff_toNat_le.1 hlow
    have hhigh : c.toNat ≤ 90 := UInt32.le_iff_toNat_le.1 hhigh
    simp only [isBlank, Text.inRanges, Text.whiteSpace, List.any_cons, List.any_nil, Bool.or_false,
      Bool.or_eq_true, Bool.and_eq_true, decide_eq_true_eq] at h
    omega
  exact dif_neg hcode

/-- The letters of a word are no blanks, whatever their case. -/
theorem solid_of_toLower (h : Solid (cs.map Char.toLower)) : Solid cs := by
  intro c hc
  cases hblank : isBlank c with
  | false => rfl
  | true =>
    have hlower := h c.toLower (List.mem_map_of_mem hc)
    rw [toLower_of_isBlank hblank, hblank] at hlower
    cases hlower

theorem solid_of_read? {s : String} {x : Reading} (h : read? s = some x) : Solid s.toList := by
  have hbody {negative : Bool} {cs : List Char}
      (h : (if String.ofList (cs.map Char.toLower) = "inf" ||
          String.ofList (cs.map Char.toLower) = "infinity" then some (.infinity negative)
        else if String.ofList (cs.map Char.toLower) = "nan" then some .notANumber
        else readUnsigned negative cs) = some x) : Solid cs := by
    have hword {word : String} (heq : String.ofList (cs.map Char.toLower) = word)
        (hsolid : Solid word.toList) : Solid cs := by
      rw [← heq, String.toList_ofList] at hsolid
      exact solid_of_toLower hsolid
    split at h
    · rename_i heq
      rw [Bool.or_eq_true, decide_eq_true_eq, decide_eq_true_eq] at heq
      rcases heq with heq | heq
      · exact hword heq (solid_of_all (by decide))
      · exact hword heq (solid_of_all (by decide))
    split at h
    · rename_i heq
      exact hword heq (solid_of_all (by decide))
    · exact solid_of_readUnsigned h
  unfold read? at h
  dsimp only at h
  split at h
  · rename_i hs
    rw [hs]
    exact .cons rfl (hbody h)
  · rename_i hs
    rw [hs]
    exact .cons rfl (hbody h)
  · exact hbody h

end RoadTrip.Decimal
