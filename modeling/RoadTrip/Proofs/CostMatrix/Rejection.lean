import RoadTrip.Proofs.CostMatrix.Acceptance

/-!
# Why entries make no matrix

Of all that may be wrong with a list of names and entries, `ofEntries` reports one thing
(`Rejects`): too few names before a name that occurs twice, that before anything wrong with an
entry, and the first entry that offends before a pair without a cost. What an entry offends against
depends on the entries before it (`CostEntry.Offends`), none of which does so itself (`Clean`). The
known costs reflect these entries, so reading the next one fails exactly if it offends
(`Known.Reflects.learn_eq_error_iff`).
-/

namespace RoadTrip

variable {α : Type}

/-- Of all pairs of positions in a list of names the first one that no entry joins. -/
structure CostMatrix.LeavesGap (names : List String) (entries : List (CostEntry α))
    (i j : Fin names.length) : Prop where
  lt : i < j
  unjoined : ∀ e ∈ entries, ¬e.Joins (names.get i) (names.get j)
  first : ∀ k l : Fin names.length, k < l → k < i ∨ k = i ∧ l < j →
    ∃ e ∈ entries, e.Joins (names.get k) (names.get l)

variable [Cost α]

/-- What is wrong with an entry that stands behind some others, the first of three things. -/
inductive CostEntry.Offends (before : List (CostEntry α)) (e : CostEntry α) :
    MatrixError α → Prop where
  | selfLoop : e.origin = e.destination → e.Offends before (.selfLoop e.origin)
  | invalidCost : e.origin ≠ e.destination →
      Cost.isFinite e.cost = false ∨ Cost.lt e.cost Cost.zero = true →
      e.Offends before (.invalidCost e.origin e.destination e.cost)
  | conflictingCost {f : CostEntry α} : e.origin ≠ e.destination → Cost.isFinite e.cost = true →
      Cost.lt e.cost Cost.zero = false → f ∈ before → f.Joins e.origin e.destination →
      Cost.same f.cost e.cost = false →
      e.Offends before (.conflictingCost e.origin e.destination)

namespace CostEntry

variable {before : List (CostEntry α)} {e : CostEntry α} {error : MatrixError α}

theorem offends_iff_of_eq (hends : e.origin = e.destination) :
    e.Offends before error ↔ error = .selfLoop e.origin := by
  constructor
  · rintro (_ | h | h)
    · rfl
    · exact absurd hends h
    · exact absurd hends h
  · rintro rfl
    exact .selfLoop hends

theorem offends_iff_of_invalid (hends : e.origin ≠ e.destination)
    (hcost : Cost.isFinite e.cost = false ∨ Cost.lt e.cost Cost.zero = true) :
    e.Offends before error ↔ error = .invalidCost e.origin e.destination e.cost := by
  constructor
  · rintro (h | _ | ⟨-, hfinite, hzero, -⟩)
    · exact absurd h hends
    · rfl
    · rw [hfinite, hzero] at hcost
      rcases hcost with h | h <;> cases h
  · rintro rfl
    exact .invalidCost hends hcost

theorem offends_iff_of_valid (hends : e.origin ≠ e.destination)
    (hfinite : Cost.isFinite e.cost = true) (hzero : Cost.lt e.cost Cost.zero = false) :
    e.Offends before error ↔
      (∃ f ∈ before, f.Joins e.origin e.destination ∧ Cost.same f.cost e.cost = false) ∧
        error = .conflictingCost e.origin e.destination := by
  constructor
  · rintro (h | ⟨-, hcost⟩ | ⟨-, -, -, hf, hjoins, hsame⟩)
    · exact absurd h hends
    · rw [hfinite, hzero] at hcost
      rcases hcost with h | h <;> cases h
    · exact ⟨⟨_, hf, hjoins, hsame⟩, rfl⟩
  · rintro ⟨⟨f, hf, hjoins, hsame⟩, rfl⟩
    exact .conflictingCost hends hfinite hzero hf hjoins hsame

end CostEntry

namespace CostMatrix

/-- No entry between waypoints of the list offends against those before it. -/
def Clean (names : List String) (entries : List (CostEntry α)) : Prop :=
  ∀ before e after, entries = before ++ e :: after → e.Within names →
    ∀ error, ¬e.Offends before error

/-- The one thing that is reported of names and entries that make no matrix. -/
inductive Rejects (names : List String) (entries : List (CostEntry α)) : MatrixError α → Prop where
  | tooFewWaypoints : names.length < 2 → Rejects names entries (.tooFewWaypoints names.length)
  /-- The first name that occurs earlier in the list, too. -/
  | duplicateWaypoint {before : List String} {name : String} {after : List String} :
      2 ≤ names.length → names = before ++ name :: after → before.Nodup → name ∈ before →
      Rejects names entries (.duplicateWaypoint name)
  /-- The first entry between waypoints of the list that offends. -/
  | offends {before : List (CostEntry α)} {e : CostEntry α} {after : List (CostEntry α)}
      {error : MatrixError α} :
      2 ≤ names.length → names.Nodup → entries = before ++ e :: after → Clean names before →
      e.Within names → e.Offends before error → Rejects names entries error
  /-- The first pair without an entry. -/
  | missingCost {i j : Fin names.length} :
      2 ≤ names.length → names.Nodup → Clean names entries → LeavesGap names entries i j →
      Rejects names entries (.missingCost (names.get i) (names.get j))

/-! ## Names -/

/-- An element of a list is its first one, or has that one in front of it. -/
theorem exists_split_cons {β : Type} {b c : β} {rest : List β} {Q : List β → Prop} :
    (∃ before after, c :: rest = before ++ b :: after ∧ Q before) ↔
      c = b ∧ Q [] ∨ ∃ before after, rest = before ++ b :: after ∧ Q (c :: before) := by
  constructor
  · rintro ⟨_ | ⟨d, before⟩, after, hsplit, hbefore⟩
    · exact .inl ⟨(List.cons.inj hsplit).1, hbefore⟩
    · obtain ⟨rfl, rfl⟩ := List.cons.inj hsplit
      exact .inr ⟨before, after, rfl, hbefore⟩
  · rintro (⟨rfl, hbefore⟩ | ⟨before, after, rfl, hbefore⟩)
    · exact ⟨[], rest, rfl, hbefore⟩
    · exact ⟨c :: before, after, rfl, hbefore⟩

/-- The first name that occurs earlier, in the list or in front of it. -/
theorem firstRepeat?_eq_some_iff {earlier names : List String} {name : String} :
    firstRepeat? earlier names = some name ↔ ∃ before after, names = before ++ name :: after ∧
      before.Nodup ∧ (∀ x ∈ before, x ∉ earlier) ∧ (name ∈ before ∨ name ∈ earlier) := by
  induction names generalizing earlier with
  | nil => simp [firstRepeat?]
  | cons x rest ih =>
    rw [firstRepeat?, exists_split_cons]
    by_cases hx : x ∈ earlier
    · rw [if_pos (List.contains_iff_mem.2 hx), Option.some.injEq]
      constructor
      · rintro rfl
        exact .inl ⟨rfl, List.nodup_nil, fun _ hy => absurd hy List.not_mem_nil, .inr hx⟩
      · rintro (⟨rfl, -⟩ | ⟨before, after, -, -, hbefore, -⟩)
        · rfl
        · exact absurd hx (hbefore x List.mem_cons_self)
    · -- the name is not the first one, which from here on is one of the earlier ones
      rw [if_neg (by rwa [List.contains_iff_mem]), ih, or_iff_right]
      · refine exists_congr fun before => exists_congr fun after => and_congr_right fun _ => ?_
        simp only [List.nodup_cons, List.mem_cons]
        grind
      · rintro ⟨rfl, -, -, hname⟩
        exact hx (hname.resolve_left List.not_mem_nil)

/-! ## Entries -/

/-- A loop over a list fails at the first element at which its step does. -/
theorem foldlM_eq_error_iff {ε σ β : Type} {f : σ → β → Except ε σ} {l : List β} {s : σ}
    {error : ε} :
    l.foldlM f s = .error error ↔ ∃ b before after, l = before ++ b :: after ∧
      ∃ t, before.foldlM f s = .ok t ∧ f t b = .error error := by
  induction l generalizing s with
  | nil => simp [pure, Except.pure]
  | cons c rest ih =>
    simp only [exists_split_cons, exists_or, List.foldlM_cons]
    cases hc : f s c with
    | error other =>
      simp [hc, bind, Except.bind, pure, Except.pure]
    | ok next =>
      simp [hc, bind, Except.bind, pure, Except.pure, ih]

section

variable {n : Nat} {names : Vector String n} {k : Known α n} {seen entries : List (CostEntry α)}
  {e : CostEntry α} {error : MatrixError α}

/-- What is known disagrees with a cost if one of the entries for the pair does. -/
theorem Known.Reflects.any_get_iff [OrderedCost α] (hk : k.Reflects names seen) {a b : Fin n}
    {c : α} : (k.get a b).any (fun known => !Cost.same known c) = true ↔
      ∃ f ∈ seen, f.Joins (names.get a) (names.get b) ∧ Cost.same f.cost c = false := by
  constructor
  · intro h
    cases hget : k.get a b with
    | none =>
      rw [hget] at h
      cases h
    | some known =>
      obtain ⟨f, hf, hjoins, rfl⟩ := hk.of_get hget
      rw [hget] at h
      exact ⟨f, hf, hjoins, by simpa using h⟩
  · rintro ⟨f, hf, hjoins, hsame⟩
    obtain ⟨cost, hget, hcost⟩ := hk.get f hf hjoins
    rw [hget, Option.any_some, Bool.not_eq_true', Bool.eq_false_iff]
    intro hother
    rw [Cost.same_trans (Cost.same_symm hcost) hother] at hsame
    cases hsame

/-- **An entry is not read exactly if it offends** against those that have been read. -/
theorem Known.Reflects.learn_eq_error_iff [LawfulCost α] (hk : k.Reflects names seen)
    (hn : names.toList.Nodup) :
    CostMatrix.learn names k e = .error error ↔ e.Within names.toList ∧ e.Offends seen error := by
  by_cases he : e.Within names.toList
  · obtain ⟨a, ha⟩ := exists_finIdxOf? he.1
    obtain ⟨b, hb⟩ := exists_finIdxOf? he.2
    have ha' := get_of_finIdxOf? ha
    have hb' := get_of_finIdxOf? hb
    have hloop : a = b ↔ e.origin = e.destination := by rw [← ha', ← hb', get_inj hn]
    have hconflict := hk.any_get_iff (a := a) (b := b) (c := e.cost)
    rw [ha', hb'] at hconflict
    rw [and_iff_right he]
    unfold CostMatrix.learn
    simp only [ha, hb, hloop]
    split
    · rename_i hself
      rw [CostEntry.offends_iff_of_eq hself, Except.error.injEq, eq_comm]
    · rename_i hself
      split
      · rename_i hcost
        rw [CostEntry.offends_iff_of_invalid hself (by simpa using hcost), Except.error.injEq,
          eq_comm]
      · rename_i hcost
        simp only [Bool.or_eq_true, Bool.not_eq_true', not_or, Bool.not_eq_false,
          Bool.not_eq_true] at hcost
        rw [CostEntry.offends_iff_of_valid hself hcost.1 hcost.2, ← hconflict]
        split
        · rename_i hany
          rw [and_iff_right hany, Except.error.injEq, eq_comm]
        · rename_i hany
          exact iff_of_false nofun fun h => hany h.1
  · rw [learn_of_not_within k he]
    exact iff_of_false nofun fun h => he h.1

variable [LawfulCost α]

/-- What has been read before an entry. -/
theorem reflects_of_learnAll (hn : names.toList.Nodup)
    (h : entries.foldlM (learn names) (Known.none α n) = .ok k) : k.Reflects names entries :=
  (Known.Reflects.none.learnAll hn h).1

/-- Entries can all be read if and only if none of them offends against those before it. -/
theorem clean_iff_exists_learnAll (hn : names.toList.Nodup) :
    Clean names.toList entries ↔
      ∃ known, entries.foldlM (learn names) (Known.none α n) = .ok known := by
  constructor
  · intro hclean
    cases hread : entries.foldlM (learn names) (Known.none α n) with
    | ok known => exact ⟨known, rfl⟩
    | error error =>
      obtain ⟨e, before, after, hsplit, known, hbefore, he⟩ := foldlM_eq_error_iff.1 hread
      have hoffends := ((reflects_of_learnAll hn hbefore).learn_eq_error_iff hn).1 he
      exact absurd hoffends.2 (hclean before e after hsplit hoffends.1 error)
  · rintro ⟨known, hread⟩ before e after rfl hwithin error hoffends
    cases hbefore : before.foldlM (learn names) (Known.none α n) with
    | error other =>
      rw [List.foldlM_append, hbefore] at hread
      cases hread
    | ok known' =>
      have he := ((reflects_of_learnAll hn hbefore).learn_eq_error_iff hn).2 ⟨hwithin, hoffends⟩
      rw [foldlM_eq_error_iff.2 ⟨e, before, after, rfl, known', hbefore, he⟩] at hread
      cases hread

/-- **Reading fails at the first entry that offends.** -/
theorem learnAll_eq_error_iff (hn : names.toList.Nodup) :
    entries.foldlM (learn names) (Known.none α n) = .error error ↔ ∃ before e after,
      entries = before ++ e :: after ∧ Clean names.toList before ∧ e.Within names.toList ∧
        e.Offends before error := by
  rw [foldlM_eq_error_iff]
  constructor
  · rintro ⟨e, before, after, hsplit, known, hbefore, he⟩
    rw [(reflects_of_learnAll hn hbefore).learn_eq_error_iff hn] at he
    exact ⟨before, e, after, hsplit, (clean_iff_exists_learnAll hn).2 ⟨known, hbefore⟩, he⟩
  · rintro ⟨before, e, after, hsplit, hclean, he⟩
    obtain ⟨known, hbefore⟩ := (clean_iff_exists_learnAll hn).1 hclean
    rw [← (reflects_of_learnAll hn hbefore).learn_eq_error_iff hn] at he
    exact ⟨e, before, after, hsplit, known, hbefore, he⟩

end

/-! ## Gaps -/

section

variable {n : Nat}

/-- The lexicographic order of pairs of positions. -/
def Known.Before (p q : Fin n × Fin n) : Prop := p.1 < q.1 ∨ p.1 = q.1 ∧ p.2 < q.2

theorem Known.pairwise_pairs : (Known.pairs n).Pairwise Known.Before := by
  have hrange : (List.finRange n).Pairwise (· < ·) := List.pairwise_lt_finRange n
  refine List.pairwise_flatMap.2 ⟨fun a _ => ?_, ?_⟩
  · exact List.pairwise_map.2 ((hrange.filter _).imp fun hlt => .inr ⟨rfl, hlt⟩)
  · refine hrange.imp fun hlt p hp q hq => .inl ?_
    obtain ⟨b, -, rfl⟩ := List.mem_map.1 hp
    obtain ⟨c, -, rfl⟩ := List.mem_map.1 hq
    exact hlt

theorem Known.mem_pairs {p : Fin n × Fin n} : p ∈ Known.pairs n ↔ p.1 < p.2 := by
  obtain ⟨a, b⟩ := p
  simp [Known.pairs]

/-- What is found in a list that is in order comes before all else that could be found. -/
theorem find?_eq_some_iff_first {β : Type} {r : β → β → Prop} [Std.Asymm r] {l : List β}
    (hl : l.Pairwise r) {p : β → Bool} {b : β} :
    l.find? p = some b ↔ b ∈ l ∧ p b = true ∧ ∀ c ∈ l, r c b → p c = false := by
  constructor
  · intro h
    obtain ⟨hb, before, after, rfl, hbefore⟩ := List.find?_eq_some_iff_append.1 h
    refine ⟨by simp, hb, fun c hc hcb => ?_⟩
    obtain ⟨-, hafter, -⟩ := List.pairwise_append.1 hl
    rcases List.mem_append.1 hc with hc | hc
    · simpa using hbefore c hc
    · rcases List.mem_cons.1 hc with rfl | hc
      · exact absurd hcb (Std.Asymm.asymm _ _ hcb)
      · exact absurd hcb (Std.Asymm.asymm _ _ ((List.pairwise_cons.1 hafter).1 c hc))
  · rintro ⟨hmem, hb, hfirst⟩
    obtain ⟨before, after, rfl⟩ := List.append_of_mem hmem
    refine List.find?_eq_some_iff_append.2 ⟨hb, before, after, rfl, fun c hc => ?_⟩
    have hcb := (List.pairwise_append.1 hl).2.2 c hc b List.mem_cons_self
    simpa using hfirst c (List.mem_append_left _ hc) hcb

instance : Std.Asymm (Known.Before (n := n)) where
  asymm p q hpq hqp := by
    unfold Known.Before at *
    omega

omit [Cost α] in
theorem Known.firstGap?_eq_some_iff {k : Known α n} {a b : Fin n} :
    k.firstGap? = some (a, b) ↔ a < b ∧ k.get a b = Option.none ∧
      ∀ c d, c < d → c < a ∨ c = a ∧ d < b → ∃ cost, k.get c d = some cost := by
  unfold firstGap?
  rw [find?_eq_some_iff_first pairwise_pairs, mem_pairs, Option.isNone_iff_eq_none, Prod.forall]
  simp only [mem_pairs, Option.isNone_eq_false_iff, Option.isSome_iff_exists]
  rfl

/-- A gap in what is known is one that the entries leave. -/
theorem Known.Reflects.firstGap?_eq_some_iff {names : Vector String n} {k : Known α n}
    {seen : List (CostEntry α)} (hk : k.Reflects names seen) {i j : Fin n} :
    k.firstGap? = some (i, j) ↔ i < j ∧ (∀ e ∈ seen, ¬e.Joins (names.get i) (names.get j)) ∧
      ∀ a b, a < b → a < i ∨ a = i ∧ b < j →
        ∃ e ∈ seen, e.Joins (names.get a) (names.get b) := by
  have hget (a b : Fin n) : (∃ cost, k.get a b = some cost) ↔
      ∃ e ∈ seen, e.Joins (names.get a) (names.get b) := by
    constructor
    · rintro ⟨cost, h⟩
      obtain ⟨e, he, hjoins, -⟩ := hk.of_get h
      exact ⟨e, he, hjoins⟩
    · rintro ⟨e, he, hjoins⟩
      obtain ⟨cost, h, -⟩ := hk.get e he hjoins
      exact ⟨cost, h⟩
  have hnone : k.get i j = Option.none ↔ ∀ e ∈ seen, ¬e.Joins (names.get i) (names.get j) := by
    rw [Option.eq_none_iff_forall_ne_some, ← not_exists, hget]
    simp only [not_exists, not_and]
  rw [Known.firstGap?_eq_some_iff, hnone]
  simp only [hget]

end

/-! ## Errors -/

section

variable [LawfulCost α] {names : List String} {entries : List (CostEntry α)}
  {error : MatrixError α}

omit [LawfulCost α] in
/-- What is reported of different names concerns the entries. -/
theorem rejects_iff_of_nodup (htwo : 2 ≤ names.length) (hn : names.Nodup) :
    Rejects names entries error ↔
      (∃ before e after, entries = before ++ e :: after ∧ Clean names before ∧ e.Within names ∧
        e.Offends before error) ∨
      Clean names entries ∧ ∃ i j, LeavesGap names entries i j ∧
        error = .missingCost (names.get i) (names.get j) := by
  constructor
  · intro h
    cases h with
    | tooFewWaypoints hshort => exact absurd hshort (Nat.not_lt.2 htwo)
    | duplicateWaypoint _ hsplit _ hname =>
      rw [hsplit, List.nodup_append] at hn
      exact absurd rfl (hn.2.2 _ hname _ List.mem_cons_self)
    | offends _ _ hsplit hclean hwithin hoffends =>
      exact .inl ⟨_, _, _, hsplit, hclean, hwithin, hoffends⟩
    | missingCost _ _ hclean hgap => exact .inr ⟨hclean, _, _, hgap, rfl⟩
  · rintro (⟨before, e, after, hsplit, hclean, hwithin, hoffends⟩ |
      ⟨hclean, i, j, hgap, rfl⟩)
    · exact .offends htwo hn hsplit hclean hwithin hoffends
    · exact .missingCost htwo hn hclean hgap

omit [LawfulCost α] in
theorem rejects_iff_of_repeat {name : String} (htwo : 2 ≤ names.length)
    (h : firstRepeat? [] names = some name) :
    Rejects names entries error ↔ error = .duplicateWaypoint name := by
  obtain ⟨before, after, hsplit, hnodup, -, hname⟩ := firstRepeat?_eq_some_iff.1 h
  have hname : name ∈ before := hname.resolve_right List.not_mem_nil
  have hrepeat : ¬names.Nodup := by
    rw [hsplit, List.nodup_append]
    exact fun hn => hn.2.2 _ hname _ List.mem_cons_self rfl
  constructor
  · rintro (hshort | ⟨-, hsplit', hnodup', hname'⟩ | ⟨-, hn⟩ | ⟨-, hn⟩)
    · exact absurd hshort (Nat.not_lt.2 htwo)
    · have h' := firstRepeat?_eq_some_iff.2
        ⟨_, _, hsplit', hnodup', fun _ _ => List.not_mem_nil, .inl hname'⟩
      rw [h] at h'
      cases h'
      rfl
    · exact absurd hn hrepeat
    · exact absurd hn hrepeat
  · rintro rfl
    exact .duplicateWaypoint htwo hsplit hnodup hname

/-- The names are checked first, then the entries one after the other, and the gaps last. -/
theorem ofEntries_eq_error_iff :
    ofEntries names entries = .error error ↔ Rejects names entries error := by
  unfold ofEntries
  split
  · rename_i hshort
    constructor
    · rintro ⟨⟩
      exact .tooFewWaypoints hshort
    · rintro (_ | ⟨htwo, -⟩ | ⟨htwo, -⟩ | ⟨htwo, -⟩)
      · rfl
      all_goals exact absurd hshort (Nat.not_lt.2 htwo)
  · rename_i hlong
    have htwo := Nat.not_lt.1 hlong
    split
    · rename_i name hrepeat
      rw [rejects_iff_of_repeat htwo hrepeat, Except.error.injEq, eq_comm]
    · rename_i hrepeat
      have hn := (firstRepeat?_eq_none_iff.1 hrepeat).1
      have hlisted : (⟨names.toArray, by simp⟩ : Vector String names.length).toList.Nodup := hn
      have hreading : _ ↔ ∃ before e after, entries = before ++ e :: after ∧ Clean names before ∧
          e.Within names ∧ e.Offends before error := learnAll_eq_error_iff hlisted
      have hclean : Clean names entries ↔ _ := clean_iff_exists_learnAll hlisted
      rw [rejects_iff_of_nodup htwo hn, ← hreading, hclean]
      dsimp only
      split
      · rename_i other hread
        simp [hread]
      · rename_i known hread
        have hgap (i j : Fin names.length) :
            known.firstGap? = some (i, j) ↔ LeavesGap names entries i j :=
          (reflects_of_learnAll hlisted hread).firstGap?_eq_some_iff.trans
            ⟨fun h => ⟨h.1, h.2.1, h.2.2⟩, fun h => ⟨h.lt, h.unjoined, h.first⟩⟩
        simp only [hread, ← hgap]
        split
        · rename_i i j hij
          constructor
          · rintro ⟨⟩
            exact .inr ⟨⟨known, rfl⟩, i, j, hij, rfl⟩
          · rintro (h | ⟨-, i', j', hij', rfl⟩)
            · cases h
            · rw [hij] at hij'
              cases hij'
              rfl
        · rename_i hnone
          simp [hnone]

end

/-- **What is reported of names and entries that make no matrix**: of all that is wrong with them
the first thing, by the order in which names, entries and gaps are checked. -/
theorem ofEntries_rejects (names : List String) (entries : List (CostEntry Float))
    (error : MatrixError Float) :
    ofEntries names entries = .error error ↔ Rejects names entries error :=
  ofEntries_eq_error_iff

end CostMatrix

end RoadTrip
