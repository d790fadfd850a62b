import RoadTrip.Proofs.Cost.Binary64
import RoadTrip.Proofs.CostMatrix

/-!
# Which entries make a matrix

`ofEntries` accepts exactly the lists of entries that name one cost for every pair of waypoints
(`Tabulates`), and the matrix has the costs that they name (`Represents`). While the entries are
read, the known costs are those of the entries read so far (`Known.Reflects`): each comes from one
of them, and it is the same as that of every other one for the pair, in either direction.
-/

namespace RoadTrip

variable {α : Type}

namespace CostEntry

/-- The entry names the cost between two waypoints, in either direction. -/
def Joins (e : CostEntry α) (a b : String) : Prop :=
  e.origin = a ∧ e.destination = b ∨ e.origin = b ∧ e.destination = a

def Within (e : CostEntry α) (names : List String) : Prop :=
  e.origin ∈ names ∧ e.destination ∈ names

/-- The same cost, named in the other direction. -/
def reversed (e : CostEntry α) : CostEntry α := ⟨e.destination, e.origin, e.cost⟩

/-- One of the entries, up to its direction. -/
def IsAmong (e : CostEntry α) (entries : List (CostEntry α)) : Prop :=
  e ∈ entries ∨ e.reversed ∈ entries

/-- The entry joins two different waypoints at a finite cost that is not negative. -/
structure Fair [Cost α] (e : CostEntry α) : Prop where
  ne : e.origin ≠ e.destination
  finite : Cost.isFinite e.cost = true
  zero_le : Cost.le Cost.zero e.cost = true

theorem Joins.symm {e : CostEntry α} {a b : String} (h : e.Joins a b) : e.Joins b a := Or.symm h

theorem joins_self (e : CostEntry α) : e.Joins e.origin e.destination := .inl ⟨rfl, rfl⟩

theorem Joins.trans {e f : CostEntry α} {a b : String} (hf : f.Joins e.origin e.destination)
    (he : e.Joins a b) : f.Joins a b := by
  unfold Joins at *
  grind

theorem Joins.of_both {e f : CostEntry α} {a b : String} (hf : f.Joins a b) (he : e.Joins a b) :
    f.Joins e.origin e.destination := by
  unfold Joins at *
  grind

theorem Fair.of_joins [Cost α] {e f : CostEntry α} (hf : f.Fair)
    (hjoins : f.Joins e.origin e.destination) (hcost : f.cost = e.cost) : e.Fair := by
  refine ⟨?_, hcost ▸ hf.finite, hcost ▸ hf.zero_le⟩
  rcases hjoins with ⟨ho, hd⟩ | ⟨hd, ho⟩
  · rw [← ho, ← hd]
    exact hf.ne
  · rw [← ho, ← hd]
    exact hf.ne.symm

theorem IsAmong.exists_joins {e : CostEntry α} {entries : List (CostEntry α)}
    (h : e.IsAmong entries) : ∃ f ∈ entries, f.Joins e.origin e.destination ∧ f.cost = e.cost := by
  rcases h with h | h
  · exact ⟨e, h, .inl ⟨rfl, rfl⟩, rfl⟩
  · exact ⟨e.reversed, h, .inr ⟨rfl, rfl⟩, rfl⟩

theorem Joins.within {e : CostEntry α} {a b : String} {names : List String} (h : e.Joins a b)
    (ha : a ∈ names) (hb : b ∈ names) : e.Within names := by
  rcases h with ⟨rfl, rfl⟩ | ⟨rfl, rfl⟩
  · exact ⟨ha, hb⟩
  · exact ⟨hb, ha⟩

end CostEntry

namespace CostMatrix

/-- The entries between waypoints of the list are fair, those for the same pair agree, and there is
one for every pair. -/
structure Tabulates [Cost α] (names : List String) (entries : List (CostEntry α)) : Prop where
  two_le_length : 2 ≤ names.length
  nodup : names.Nodup
  fair : ∀ e ∈ entries, e.Within names → e.Fair
  agree : ∀ e ∈ entries, ∀ f ∈ entries, e.Within names → f.Joins e.origin e.destination →
    Cost.same e.cost f.cost = true
  covered : ∀ a ∈ names, ∀ b ∈ names, a ≠ b → ∃ e ∈ entries, e.Joins a b

/-- The matrix has the waypoints of the list, in its order, and the costs that the entries name. -/
structure Represents [Cost α] (m : CostMatrix α) (names : List String)
    (entries : List (CostEntry α)) : Prop where
  names : m.names.toList = names
  symm : ∀ a b, m.cost a b = m.cost b a
  self : ∀ a, m.cost a a = Cost.zero
  finite : ∀ a b, Cost.isFinite (m.cost a b) = true
  zero_le : ∀ a b, Cost.le Cost.zero (m.cost a b) = true
  cost : ∀ e ∈ entries, ∀ a b, e.Joins (m.names.get a) (m.names.get b) →
    Cost.same (m.cost a b) e.cost = true

/-- Two lists have the same entries between waypoints of the list. Order, direction and repetition
do not count. -/
def Alike (names : List String) (entries entries' : List (CostEntry α)) : Prop :=
  ∀ e : CostEntry α, e.Within names → (e.IsAmong entries ↔ e.IsAmong entries')

/-! ## Reading entries -/

section

variable {n : Nat} {names : Vector String n} {a b : Fin n}

theorem get_inj (hn : names.toList.Nodup) : names.get a = names.get b ↔ a = b := by
  have ha : a.val < names.toList.length := by simp
  have hb : b.val < names.toList.length := by simp
  have hlist : names.toList[a.val] = names.toList[b.val] ↔ a.val = b.val := hn.getElem_inj_iff
  rw [Fin.ext_iff, ← hlist]
  simp [Vector.get]

theorem get_mem_toList : names.get a ∈ names.toList := by
  simp [Vector.get]

theorem exists_finIdxOf? {x : String} (hx : x ∈ names.toList) :
    ∃ a, names.finIdxOf? x = some a := by
  rw [← Option.ne_none_iff_exists', Ne, Vector.finIdxOf?_eq_none_iff, not_not]
  exact Vector.mem_toList_iff.1 hx

theorem get_of_finIdxOf? {x : String} (h : names.finIdxOf? x = some a) : names.get a = x :=
  (Vector.finIdxOf?_eq_some_iff.1 h).1

variable [Cost α] {k k' : Known α n} {seen entries : List (CostEntry α)} {e : CostEntry α}

/-- The known costs are those that some entries name. -/
structure Known.Reflects (names : Vector String n) (k : Known α n) (entries : List (CostEntry α)) :
    Prop where
  of_get : ∀ {a b cost}, k.get a b = some cost →
    ∃ e ∈ entries, e.Joins (names.get a) (names.get b) ∧ e.cost = cost
  get : ∀ e ∈ entries, ∀ {a b}, e.Joins (names.get a) (names.get b) →
    ∃ cost, k.get a b = some cost ∧ Cost.same cost e.cost = true

theorem Known.Reflects.none : (Known.none α n).Reflects names [] where
  of_get h := by
    rw [get_none] at h
    cases h
  get _ he := absurd he List.not_mem_nil

/-- Entries with an end outside the list change nothing. -/
theorem Known.Reflects.skip (hk : k.Reflects names seen) (he : ¬e.Within names.toList) :
    k.Reflects names (seen ++ [e]) where
  of_get h := by
    obtain ⟨f, hf, hjoins, rfl⟩ := hk.of_get h
    exact ⟨f, List.mem_append_left _ hf, hjoins, rfl⟩
  get f hf {a b} hjoins := by
    rcases List.mem_append.1 hf with hf | hf
    · exact hk.get f hf hjoins
    · obtain rfl := List.mem_singleton.1 hf
      exact absurd (hjoins.within get_mem_toList get_mem_toList) he

/-- Other entries put their cost in both places, which keeps those that agree with it. -/
theorem Known.Reflects.join [OrderedCost α] (hk : k.Reflects names seen) (hn : names.toList.Nodup)
    (ha : names.get a = e.origin) (hb : names.get b = e.destination)
    (hcomparable : Cost.isComparable e.cost = true)
    (hknown : ∀ known, k.get a b = some known → Cost.same known e.cost = true) :
    (k.join a b e.cost).Reflects names (seen ++ [e]) where
  of_get {x y cost} h := by
    rw [get_join] at h
    split at h
    · rename_i hxy
      cases h
      refine ⟨e, List.mem_append_right _ List.mem_cons_self, ?_, rfl⟩
      rcases hxy with ⟨rfl, rfl⟩ | ⟨rfl, rfl⟩
      · exact .inl ⟨ha.symm, hb.symm⟩
      · exact .inr ⟨ha.symm, hb.symm⟩
    · obtain ⟨f, hf, hjoins, rfl⟩ := hk.of_get h
      exact ⟨f, List.mem_append_left _ hf, hjoins, rfl⟩
  get f hf {x y} hjoins := by
    rw [get_join]
    by_cases hxy : a = x ∧ b = y ∨ b = x ∧ a = y
    · refine ⟨e.cost, if_pos hxy, ?_⟩
      have hjoins : f.Joins (names.get a) (names.get b) := by
        rcases hxy with ⟨rfl, rfl⟩ | ⟨rfl, rfl⟩
        · exact hjoins
        · exact hjoins.symm
      rcases List.mem_append.1 hf with hf | hf
      · obtain ⟨known, hget, hsame⟩ := hk.get f hf hjoins
        exact Cost.same_trans (Cost.same_symm (hknown known hget)) hsame
      · obtain rfl := List.mem_singleton.1 hf
        exact Cost.same_self hcomparable
    · rw [if_neg hxy]
      rcases List.mem_append.1 hf with hf | hf
      · exact hk.get f hf hjoins
      · obtain rfl := List.mem_singleton.1 hf
        refine absurd ?_ hxy
        unfold CostEntry.Joins at hjoins
        rw [← ha, ← hb] at hjoins
        simp only [get_inj hn] at hjoins
        exact hjoins.imp_right And.symm

theorem learn_of_not_within (k : Known α n) (he : ¬e.Within names.toList) :
    CostMatrix.learn names k e = .ok k := by
  refine learn_of_unlisted k ?_
  rw [Vector.finIdxOf?_eq_none_iff, Vector.finIdxOf?_eq_none_iff, ← not_and_or]
  simpa only [CostEntry.Within, Vector.mem_toList_iff] using he

/-- A fair entry can be read after others that agree with it. -/
theorem Known.Reflects.exists_learn (hk : k.Reflects names seen)
    (hfair : e.Within names.toList → e.Fair)
    (hagree : ∀ f ∈ seen, e.Within names.toList → f.Joins e.origin e.destination →
      Cost.same f.cost e.cost = true) : ∃ k', CostMatrix.learn names k e = .ok k' := by
  by_cases he : e.Within names.toList
  · obtain ⟨a, ha⟩ := exists_finIdxOf? he.1
    obtain ⟨b, hb⟩ := exists_finIdxOf? he.2
    have ha' := get_of_finIdxOf? ha
    have hb' := get_of_finIdxOf? hb
    have hab : a ≠ b := by
      rintro rfl
      exact (hfair he).ne (ha'.symm.trans hb')
    have hcost : Cost.lt e.cost Cost.zero = false := by
      simp [Cost.lt, (hfair he).zero_le]
    refine ⟨_, learn_of_listed ha hb hab (hfair he).finite hcost fun known hget => ?_⟩
    obtain ⟨f, hf, hjoins, rfl⟩ := hk.of_get hget
    rw [ha', hb'] at hjoins
    exact hagree f hf he hjoins
  · exact ⟨k, learn_of_not_within k he⟩

variable [LawfulCost α]

/-- **What reading one entry says of it**, and what is known after it. -/
theorem Known.Reflects.learn (hk : k.Reflects names seen) (hn : names.toList.Nodup)
    (h : learn names k e = .ok k') :
    k'.Reflects names (seen ++ [e]) ∧ (e.Within names.toList → e.Fair) := by
  rcases learn_eq_ok h with ⟨hunlisted, rfl⟩ | ⟨a, b, ha, hb, hab, hfinite, hcost, hknown, rfl⟩
  · have hout : ¬e.Within names.toList := by
      intro he
      obtain ⟨a, ha⟩ := exists_finIdxOf? he.1
      obtain ⟨b, hb⟩ := exists_finIdxOf? he.2
      rw [ha, hb] at hunlisted
      rcases hunlisted with h | h <;> cases h
    exact ⟨hk.skip hout, fun he => absurd he hout⟩
  · have ha := get_of_finIdxOf? ha
    have hb := get_of_finIdxOf? hb
    have hcomparable := LawfulCost.isComparable_of_isFinite hfinite
    refine ⟨hk.join hn ha hb hcomparable hknown, fun _ => ⟨?_, hfinite, ?_⟩⟩
    · rwa [← ha, ← hb, Ne, get_inj hn]
    · exact Cost.le_of_not_lt hcomparable LawfulCost.zero_le_zero hcost

theorem Known.Reflects.learnAll (hk : k.Reflects names seen) (hn : names.toList.Nodup)
    (h : entries.foldlM (CostMatrix.learn names) k = .ok k') :
    k'.Reflects names (seen ++ entries) ∧ ∀ e ∈ entries, e.Within names.toList → e.Fair := by
  induction entries generalizing k seen with
  | nil =>
    cases h
    exact ⟨(List.append_nil seen).symm ▸ hk, fun _ he => absurd he List.not_mem_nil⟩
  | cons e rest ih =>
    rw [List.foldlM_cons] at h
    cases he : CostMatrix.learn names k e with
    | error error => rw [he] at h; cases h
    | ok next =>
      rw [he] at h
      obtain ⟨hnext, hfair⟩ := hk.learn hn he
      obtain ⟨hlast, hrest⟩ := ih hnext h
      rw [List.append_assoc] at hlast
      exact ⟨hlast, List.forall_mem_cons.2 ⟨hfair, hrest⟩⟩

/-- **Fair entries that agree with one another can all be read.** -/
theorem Known.Reflects.exists_learnAll (hk : k.Reflects names seen) (hn : names.toList.Nodup)
    (hfair : ∀ e ∈ entries, e.Within names.toList → e.Fair)
    (hagree : ∀ e ∈ entries, ∀ f ∈ seen ++ entries, e.Within names.toList →
      f.Joins e.origin e.destination → Cost.same f.cost e.cost = true) :
    ∃ k', entries.foldlM (CostMatrix.learn names) k = .ok k' := by
  induction entries generalizing k seen with
  | nil => exact ⟨k, rfl⟩
  | cons e rest ih =>
    obtain ⟨hfair, hrest⟩ := List.forall_mem_cons.1 hfair
    obtain ⟨hagree, hagrees⟩ := List.forall_mem_cons.1 hagree
    obtain ⟨next, he⟩ := hk.exists_learn hfair fun f hf => hagree f (List.mem_append_left _ hf)
    obtain ⟨last, hlast⟩ := ih (hk.learn hn he).1 hrest fun f hf g hg =>
      hagrees f hf g (by rwa [List.append_assoc] at hg)
    refine ⟨last, ?_⟩
    rw [List.foldlM_cons, he]
    exact hlast

end

/-! ## Matrices -/

section

variable [Cost α] [LawfulCost α] {names : List String} {entries entries' : List (CostEntry α)}
  {m m' : CostMatrix α}

/-- A matrix that is made of entries, as it stood when all of them had been read. -/
theorem exists_reflects (h : ofEntries names entries = .ok m) :
    2 ≤ names.length ∧ names.Nodup ∧ (∀ e ∈ entries, e.Within names → e.Fair) ∧
    m.names.toList = names ∧ ∃ known : Known α m.size, known.Reflects m.names entries ∧
      (∀ {a b}, a ≠ b → ∃ cost, known.get a b = some cost) ∧
      ∀ a b, m.cost a b = (known.get a b).getD Cost.zero := by
  obtain ⟨known, htwo, hn, hknown, hgap, rfl⟩ := ofEntries_eq_ok h
  have hnone : (Known.none α names.length).Reflects ⟨names.toArray, by simp⟩ [] := .none
  obtain ⟨hreflects, hfair⟩ := hnone.learnAll hn hknown
  exact ⟨htwo, hn, hfair, rfl, known, hreflects,
    Known.exists_of_firstGap? hgap (Known.Valid.none.learnAll hknown), known.cost_fill⟩

theorem tabulates_of_ofEntries (h : ofEntries names entries = .ok m) :
    Tabulates names entries := by
  obtain ⟨htwo, hn, hfair, rfl, known, hreflects, hknown, -⟩ := exists_reflects h
  refine ⟨htwo, hn, hfair, fun e he f hf hwithin hjoins => ?_, fun x hx y hy hxy => ?_⟩
  · obtain ⟨a, ha⟩ := exists_finIdxOf? hwithin.1
    obtain ⟨b, hb⟩ := exists_finIdxOf? hwithin.2
    have hboth {f : CostEntry α} (h : f.Joins e.origin e.destination) :
        f.Joins (m.names.get a) (m.names.get b) := by
      rwa [get_of_finIdxOf? ha, get_of_finIdxOf? hb]
    obtain ⟨cost, hget, he⟩ := hreflects.get e he (hboth e.joins_self)
    obtain ⟨cost', hget', hf⟩ := hreflects.get f hf (hboth hjoins)
    rw [hget] at hget'
    cases hget'
    exact Cost.same_trans (Cost.same_symm he) hf
  · obtain ⟨a, ha⟩ := exists_finIdxOf? hx
    obtain ⟨b, hb⟩ := exists_finIdxOf? hy
    have ha := get_of_finIdxOf? ha
    have hb := get_of_finIdxOf? hb
    have hab : a ≠ b := by
      rintro rfl
      exact hxy (ha.symm.trans hb)
    obtain ⟨cost, hcost⟩ := hknown hab
    obtain ⟨e, he, hjoins, -⟩ := hreflects.of_get hcost
    rw [ha, hb] at hjoins
    exact ⟨e, he, hjoins⟩

theorem Tabulates.exists_ofEntries (h : Tabulates names entries) :
    ∃ m, ofEntries names entries = .ok m := by
  have hnone : (Known.none α names.length).Reflects ⟨names.toArray, by simp⟩ [] := .none
  obtain ⟨known, hknown⟩ := hnone.exists_learnAll h.nodup h.fair fun e he f hf hwithin hjoins =>
    Cost.same_symm (h.agree e he f hf hwithin hjoins)
  have hreflects := (hnone.learnAll h.nodup hknown).1
  refine CostMatrix.exists_ofEntries h.two_le_length h.nodup hknown ?_
  rw [Known.firstGap?_eq_none_iff]
  intro a b hab
  have hne : names[a] ≠ names[b] := fun he => hab.ne (Fin.ext (h.nodup.getElem_inj_iff.1 he))
  obtain ⟨e, he, hjoins⟩ := h.covered _ (List.getElem_mem _) _ (List.getElem_mem _) hne
  obtain ⟨cost, hcost, -⟩ := hreflects.get e he hjoins
  exact ⟨cost, hcost⟩

theorem represents_of_ofEntries (hzero : Cost.isFinite (Cost.zero : α) = true)
    (h : ofEntries names entries = .ok m) : m.Represents names entries := by
  have hvalid := valid_of_ofEntries h
  obtain ⟨-, -, -, hnames, known, hreflects, -, hcost⟩ := exists_reflects h
  refine ⟨hnames, hvalid.symm, hvalid.self, fun a b => ?_, hvalid.zero_le,
    fun e he a b hjoins => ?_⟩
  · by_cases hab : a = b
    · rwa [hab, hvalid.self]
    · exact hvalid.finite hab
  · obtain ⟨cost, hget, hsame⟩ := hreflects.get e he hjoins
    rwa [hcost, hget]

/-! ## Lists with the same entries -/

omit [Cost α] [LawfulCost α] in
theorem Alike.symm (h : Alike names entries entries') : Alike names entries' entries :=
  fun e he => (h e he).symm

omit [Cost α] [LawfulCost α] in
theorem Alike.exists_joins (h : Alike names entries entries') {e : CostEntry α} (he : e ∈ entries)
    (hwithin : e.Within names) :
    ∃ f ∈ entries', f.Joins e.origin e.destination ∧ f.cost = e.cost :=
  ((h e hwithin).1 (.inl he)).exists_joins

omit [LawfulCost α] in
theorem Tabulates.of_alike (h : Tabulates names entries) (halike : Alike names entries entries') :
    Tabulates names entries' := by
  have hback {e : CostEntry α} (he : e ∈ entries') (hwithin : e.Within names) :
      ∃ f ∈ entries, f.Within names ∧ f.Joins e.origin e.destination ∧ f.cost = e.cost := by
    obtain ⟨f, hf, hjoins, hcost⟩ := halike.symm.exists_joins he hwithin
    exact ⟨f, hf, hjoins.within hwithin.1 hwithin.2, hjoins, hcost⟩
  refine ⟨h.two_le_length, h.nodup, fun e he hwithin => ?_, fun e he f hf hwithin hjoins => ?_,
    fun a ha b hb hab => ?_⟩
  · obtain ⟨e', he', hwithin', hjoins, hcost⟩ := hback he hwithin
    exact (h.fair e' he' hwithin').of_joins hjoins hcost
  · obtain ⟨e', he', hwithin', hjoins', hcost⟩ := hback he hwithin
    obtain ⟨f', hf', -, hboth, hcost'⟩ := hback hf (hjoins.within hwithin.1 hwithin.2)
    rw [← hcost, ← hcost']
    exact h.agree e' he' f' hf' hwithin' ((hboth.trans hjoins).of_both hjoins')
  · obtain ⟨e, he, hjoins⟩ := h.covered a ha b hb hab
    obtain ⟨f, hf, hends, -⟩ := halike.exists_joins he (hjoins.within ha hb)
    exact ⟨f, hf, hends.trans hjoins⟩

/-- Matrices that represent the same entries have the same costs. -/
theorem Represents.same (hm : m.Represents names entries) (hm' : m'.Represents names entries')
    (htable : Tabulates names entries) (halike : Alike names entries entries') {a b : Fin m.size}
    {a' b' : Fin m'.size} (ha : m.names.get a = m'.names.get a')
    (hb : m.names.get b = m'.names.get b') :
    Cost.same (m.cost a b) (m'.cost a' b') = true := by
  have hn : m.names.toList.Nodup := hm.names ▸ htable.nodup
  have hn' : m'.names.toList.Nodup := hm'.names ▸ htable.nodup
  have hmem (a : Fin m.size) : m.names.get a ∈ names := by
    rw [← hm.names]
    exact get_mem_toList
  by_cases hab : m.names.get a = m.names.get b
  · obtain rfl := (get_inj hn).1 hab
    obtain rfl := (get_inj hn').1 (ha.symm.trans hb)
    rw [hm.self, hm'.self]
    exact Cost.same_self LawfulCost.zero_le_zero
  · obtain ⟨e, he, hjoins⟩ := htable.covered _ (hmem a) _ (hmem b) hab
    obtain ⟨f, hf, hends, hcost⟩ := halike.exists_joins he (hjoins.within (hmem a) (hmem b))
    have hleft := hm.cost e he a b hjoins
    have hright := hm'.cost f hf a' b' (by rw [← ha, ← hb]; exact hends.trans hjoins)
    rw [hcost] at hright
    exact Cost.same_trans hleft (Cost.same_symm hright)

end

/-- **A matrix is made of exactly the lists of entries that tabulate its costs**, in which case it
represents them. Their order and directions do not matter, and neither do repetitions and entries
that name other waypoints. -/
theorem ofEntries_accepts (names : List String) (entries : List (CostEntry Float)) :
    ((∃ m, ofEntries names entries = .ok m) ↔ Tabulates names entries) ∧
    (∀ m, ofEntries names entries = .ok m → m.Represents names entries) ∧
    ∀ entries', Alike names entries entries' →
      ((∃ m, ofEntries names entries = .ok m) ↔ ∃ m, ofEntries names entries' = .ok m) ∧
      ∀ m m', ofEntries names entries = .ok m → ofEntries names entries' = .ok m' →
        ∀ a b a' b', m.names[a] = m'.names[a'] → m.names[b] = m'.names[b'] →
          Cost.same (m.cost a b) (m'.cost a' b') = true := by
  have haccepts (entries : List (CostEntry Float)) :
      (∃ m, ofEntries names entries = .ok m) ↔ Tabulates names entries :=
    ⟨fun ⟨_, h⟩ => tabulates_of_ofEntries h, Tabulates.exists_ofEntries⟩
  refine ⟨haccepts entries, fun m h => represents_of_ofEntries rfl h,
    fun entries' halike => ⟨?_, fun m m' h h' a b a' b' ha hb => ?_⟩⟩
  · rw [haccepts, haccepts]
    exact ⟨fun h => h.of_alike halike, fun h => h.of_alike halike.symm⟩
  · have hm := represents_of_ofEntries rfl h
    have hm' := represents_of_ofEntries rfl h'
    exact hm.same hm' (tabulates_of_ofEntries h) halike ha hb

end CostMatrix

end RoadTrip
