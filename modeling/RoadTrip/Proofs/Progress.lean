import Mathlib.Data.String.Defs
import RoadTrip.Progress
import RoadTrip.Proofs.Evolution.Elitism

/-!
# The progress table

The table has a row for each generation that improved on the best cost so far. What improves is kept
in three places: the watcher keeps the best cost so far, a generation keeps its best member in
front, and that member keeps the number of the generation it comes from. They agree
(`Course.rows_eq`): the generations with a row are those whose best member is their own. Hence the
table of a search ends with the cost of its best route and with the generation that found it
(`history_tabulated`). The texts of the table and of the line after it are those of `tableLine` and
`endLine`.
-/

namespace RoadTrip

variable {α : Type} [Cost α]

namespace Generation

/-- The best member comes from this very generation. -/
def isImprovement (g : Generation α) : Bool := g.best.generation == g.number

/-- `g` comes before `h`, whose best member is that of `g`, or else a better one found later. -/
structure Precedes (g h : Generation α) : Prop where
  number_lt : g.number < h.number
  best : (h.best.generation ≤ g.number ∧ h.best = g.best) ∨
    g.number < h.best.generation ∧ h.best.fitness.lt g.best.fitness = true

theorem Precedes.trans [OrderedCost α] {f g h : Generation α} (hfg : f.Precedes g)
    (hgh : g.Precedes h) : f.Precedes h := by
  have hnumber := hfg.number_lt
  refine ⟨hnumber.trans hgh.number_lt, ?_⟩
  rcases hgh.best with ⟨-, hsame⟩ | ⟨hlate, hlt⟩
  · rw [hsame]
    exact hfg.best
  · refine .inr ⟨hnumber.trans hlate, ?_⟩
    rcases hfg.best with ⟨-, hsame⟩ | ⟨-, hlt'⟩
    · rw [← hsame]
      exact hlt
    · exact Cost.lt_of_le_of_lt (Fitness.lt_iff.1 hlt).1 hlt'

instance [OrderedCost α] : Trans (Precedes (α := α)) (Precedes (α := α)) Precedes where
  trans := Precedes.trans

end Generation

/-! ## Rows -/

namespace Progress

/-- The row of a generation that has one. -/
def row (g : Generation α) : ProgressRow α :=
  ⟨g.number, (Population.summarize? g.members).get rfl⟩

theorem row?_eq (soFar : Option α) (g : Generation α) : row? soFar g =
    if soFar.any (Cost.le · (row g).summary.best) then none else some (row g) := rfl

theorem best_row {g : Generation α} (hg : g.members.Ranked) :
    (row g).summary.best = g.best.fitness.cost :=
  Cost.foldl_least (List.forall_mem_map.2 (List.pairwise_cons.1 hg).1)

/-- The rows of some generations, which are shown one after the other. -/
def rows : (soFar : Option α) → List (Generation α) → List (ProgressRow α)
  | _, [] => []
  | soFar, g :: l =>
    match row? soFar g with
    | some row => row :: rows (some row.summary.best) l
    | none => rows soFar l

/-- The best cost so far when `g` is shown: that of `g` is lower if `g` is an improvement, and the
very same if it is not. -/
inductive Awaits : Option α → Generation α → Prop where
  | improvement {soFar : Option α} {g : Generation α} (hnew : g.isImprovement = true)
      (hlt : ∀ c ∈ soFar, Cost.lt g.best.fitness.cost c = true) : Awaits soFar g
  | rest {g : Generation α} (hold : g.isImprovement = false) :
      Awaits (some g.best.fitness.cost) g

/-- An improvement has a row, and the cost so far is that of the generation shown last. -/
theorem Awaits.rows_cons {soFar : Option α} {g : Generation α} (h : Awaits soFar g)
    (hg : g.members.Ranked) (l : List (Generation α)) : rows soFar (g :: l) =
      ([g].filter (·.isImprovement)).map row ++ rows (some g.best.fitness.cost) l := by
  have hbest := best_row hg
  rw [rows, row?_eq, hbest]
  cases h with
  | improvement hnew hlt =>
    have hany : soFar.any (Cost.le · g.best.fitness.cost) = false := by
      cases soFar with
      | none => rfl
      | some c => exact (Cost.lt_iff.1 (hlt c rfl)).2
    simp [hany, hnew, hbest]
  | rest hold =>
    have hle : Cost.le g.best.fitness.cost g.best.fitness.cost = true :=
      g.best.fitness.comparable
    simp [hle, hold]

/-- The rows tell how a search went. -/
structure Tabulates (rows : List (ProgressRow α)) (h : History α) : Prop where
  /-- Each row is that of a later generation than the rows before, and of a lower cost. -/
  improves : rows.Pairwise fun a b =>
    a.generation < b.generation ∧ Cost.lt b.summary.best a.summary.best = true
  first : h.generations ≠ [] → rows.head?.map (·.generation) = some 0
  last : ∀ {o : Outcome α}, h.result = .ok o → ∃ row, rows.getLast? = some row ∧
    row.summary.best = o.best.fitness.cost ∧ row.generation = o.best.generation
  /-- The best route was found in the first generation whose best cost is that of the route. -/
  found : ∀ {o : Outcome α}, h.result = .ok o → ∃ g,
    (h.generations.find? fun g => Cost.same g.best.fitness.cost o.best.fitness.cost) = some g ∧
      g.number = o.best.generation

/-! ## Text -/

section

variable [CostText α]

/-- A line of the table: the number of a generation, its average, worst and best cost, and the
number of its routes. Each stands at the right end of its column, with a bar between two columns. -/
def tableLine (generation : Nat) (average worst best : α) (unique : Nat) : String :=
  String.leftpad 10 ' ' (toString generation) ++ " | " ++
    String.leftpad 12 ' ' (CostText.tenths average) ++ " | " ++
    String.leftpad 10 ' ' (CostText.tenths worst) ++ " | " ++
    String.leftpad 9 ' ' (CostText.tenths best) ++ " | " ++
    String.leftpad 13 ' ' (toString unique) ++ "\n"

/-- The line after the table: the last generation and the reason to stop there, and the cost of the
best route with the number of the generation that found it. -/
def endLine (last : Nat) (reason : String) (best : α) (found : Nat) : String :=
  "Stopped after generation " ++ toString last ++ " (" ++ reason ++ "), best cost " ++
    CostText.tenths best ++ " found in generation " ++ toString found ++ "\n"

theorem alignRight_eq (width : Nat) (s : String) :
    alignRight width s = String.leftpad width ' ' s := by
  rw [alignRight, String.leftpad, List.leftpad, String.length_toList, String.ofList_append,
    String.ofList_toList]

omit [Cost α] in
theorem line_eq (r : ProgressRow α) : line r =
    tableLine r.generation r.summary.average r.summary.worst r.summary.best r.summary.unique := by
  simp only [line, tableLine, alignRight_eq, String.intercalate_cons_cons,
    String.intercalate_singleton, String.append_assoc]

theorem lastLine_eq (o : Outcome α) : lastLine o =
    endLine o.last.number o.termination.label o.best.fitness.cost o.best.generation := by
  have htext (s : String) : toString s = s := rfl
  unfold lastLine endLine
  simp only [htext, String.append_assoc]

end

end Progress

/-! ## The rows of a search -/

namespace Evolution

open Progress

variable {e : Evolution α} {g h : Generation α}

theorem Passes.precedes (hp : e.Passes g h) (hg : g.Sound e) : g.Precedes h := by
  have hnumber := hp.number
  refine ⟨by omega, ?_⟩
  rcases hp.best with ⟨hbest, -⟩ | ⟨hnew, hlt⟩
  · rw [hbest]
    exact .inl ⟨hg.generation_le g.best List.mem_cons_self, rfl⟩
  · exact .inr ⟨by omega, hlt⟩

theorem Passes.awaits (hp : e.Passes g h) (hg : g.Sound e) :
    Awaits (some g.best.fitness.cost) h := by
  rcases hp.best with ⟨hbest, -⟩ | ⟨hnew, hlt⟩
  · have hle := hg.generation_le g.best List.mem_cons_self
    have hnumber := hp.number
    rw [← hbest]
    exact .rest (beq_eq_false_iff_ne.2 (by rw [hbest]; omega))
  · exact .improvement (beq_iff_eq.2 hnew) fun c hc => Option.some.inj hc ▸ hlt

section

variable [OrderedCost α] {σ : Type} [Source σ] {clock : Nat → Nat} {s : σ}
  {l : List (Generation α)} {r : Except Fault (Outcome α)}

theorem Course.pairwise_precedes (hcourse : Course e clock g s l r) (hg : g.Sound e) :
    l.Pairwise Generation.Precedes := by
  refine List.IsChain.pairwise (hcourse.isChain hg ?_)
  intro g h s t hg hbreed
  have hb := bred_of_breed hg hbreed
  exact ⟨hb.sound hg, (hb.passes hg).precedes hg⟩

/-- The generations with a row are those whose best member is their own. -/
theorem Course.rows_eq (hcourse : Course e clock g s l r) (hg : g.Sound e) {soFar : Option α}
    (hsoFar : Awaits soFar g) : rows soFar l = (l.filter (·.isImprovement)).map row := by
  induction hcourse generalizing soFar with
  | stopped _ | failed _ _ => rw [hsoFar.rows_cons hg.ranked, rows, List.append_nil]
  | bred _ hbreed _ ih =>
    have hb := bred_of_breed hg hbreed
    rw [hsoFar.rows_cons hg.ranked, ih (hb.sound hg) ((hb.passes hg).awaits hg), ← List.map_append,
      ← List.filter_append, List.singleton_append]

/-- Up to the generation that found the best route of a run all costs are higher. From there on that
route stays the best one. -/
theorem Course.best_cases {o : Outcome α} (hcourse : Course e clock g s l r) (hg : g.Sound e)
    (hr : r = .ok o) (hh : h ∈ l) :
    (o.best.generation ≤ h.number ∧ o.best = h.best) ∨
      h.number < o.best.generation ∧ o.best.fitness.lt h.best.fitness = true := by
  have hlast := (hcourse.sound hg _ (hcourse.last_mem hr)).generation_le o.best List.mem_cons_self
  have hprecedes := hcourse.pairwise_precedes hg
  obtain ⟨before, rfl, -⟩ := hcourse.exists_append hr
  rcases List.mem_append.1 hh with hbefore | hh
  · exact ((List.pairwise_append.1 hprecedes).2.2 h hbefore _ List.mem_cons_self).best
  · cases List.mem_singleton.1 hh
    exact .inl ⟨hlast, rfl⟩

/-- A run comes to the generation that found its best route. All costs before it are higher, and no
generation after it is an improvement. -/
theorem Course.exists_found {o : Outcome α} (hcourse : Course e clock g s l r) (hg : g.Sound e)
    (hnumber : g.number = 0) (hr : r = .ok o) : ∃ before found after,
      l = before ++ found :: after ∧ found.number = o.best.generation ∧ found.best = o.best ∧
      (∀ h ∈ before, o.best.fitness.lt h.best.fitness = true) ∧
      ∀ h ∈ after, h.isImprovement = false := by
  have hlast := hcourse.last_mem hr
  have hmem : o.best.generation ∈ l.map (·.number) := by
    have hle := (hcourse.sound hg _ hlast).generation_le o.best List.mem_cons_self
    have hbound : o.last.number ∈ l.map (·.number) := List.mem_map_of_mem hlast
    rw [hcourse.map_number, hnumber, List.mem_range'_1] at hbound ⊢
    omega
  obtain ⟨found, hfound, hgeneration⟩ := List.mem_map.1 hmem
  obtain ⟨before, after, rfl⟩ := List.append_of_mem hfound
  obtain ⟨-, hfrom, hto⟩ := List.pairwise_append.1 (hcourse.pairwise_precedes hg)
  refine ⟨before, found, after, rfl, hgeneration, ?_, ?_, ?_⟩
  · -- the tag of the best route is the number of a generation, which therefore has that route
    rcases hcourse.best_cases hg hr hfound with ⟨-, hbest⟩ | ⟨hlt, -⟩
    · exact hbest.symm
    · omega
  · intro h hh
    have hlt := (hto h hh found List.mem_cons_self).number_lt
    rcases hcourse.best_cases hg hr (List.mem_append_left _ hh) with ⟨hle, -⟩ | ⟨-, hbetter⟩
    · omega
    · exact hbetter
  · intro h hh
    have hlt := ((List.pairwise_cons.1 hfrom).1 h hh).number_lt
    have hh := List.mem_append_right before (List.mem_cons_of_mem found hh)
    rw [Generation.isImprovement, beq_eq_false_iff_ne]
    rcases hcourse.best_cases hg hr hh with ⟨-, hbest⟩ | ⟨hlater, -⟩
    · rw [← hbest]
      omega
    · omega

theorem Course.tabulates (hcourse : Course e clock g s l r) (hg : g.Sound e)
    (hnumber : g.number = 0) : Tabulates (rows none l) ⟨l, r⟩ := by
  have hnew : g.isImprovement = true := by
    have hle := hg.generation_le g.best List.mem_cons_self
    exact beq_iff_eq.2 (by omega)
  have hsound := hcourse.sound hg
  rw [hcourse.rows_eq hg (.improvement hnew (by simp))]
  constructor
  case improves =>
    rw [List.pairwise_map, List.pairwise_filter]
    refine (hcourse.pairwise_precedes hg).imp_of_mem fun {a b} ha hb hab _ hown => ?_
    rw [best_row (hsound a ha).ranked, best_row (hsound b hb).ranked]
    have hlt := hab.number_lt
    refine ⟨hlt, ?_⟩
    -- the best member of `b` is its own, so it cannot be that of `a`
    rcases hab.best with ⟨hle, -⟩ | ⟨-, hbetter⟩
    · rw [beq_iff_eq.1 hown] at hle
      omega
    · exact hbetter
  case first =>
    intro _
    obtain ⟨rest, rfl⟩ := hcourse.exists_cons
    rw [List.filter_cons_of_pos hnew, List.map_cons, List.head?_cons, Option.map_some]
    exact congrArg some hnumber
  case last =>
    intro o hr
    obtain ⟨before, found, after, rfl, hgeneration, hbest, -, hafter⟩ :=
      hcourse.exists_found hg hnumber hr
    have hown : found.isImprovement = true := beq_iff_eq.2 (hbest ▸ hgeneration.symm)
    have hranked := (hsound found (List.mem_append_right _ List.mem_cons_self)).ranked
    have hfilter : (found :: after).filter (·.isImprovement) = [found] := by
      rw [List.filter_cons_of_pos hown, List.filter_eq_nil_iff.2]
      intro h hh
      rw [hafter h hh]
      exact Bool.false_ne_true
    refine ⟨row found, ?_, by rw [best_row hranked, hbest], hgeneration⟩
    rw [List.filter_append, hfilter, List.map_append]
    exact List.getLast?_concat
  case found =>
    intro o hr
    obtain ⟨before, found, after, rfl, hgeneration, hbest, hbefore, -⟩ :=
      hcourse.exists_found hg hnumber hr
    refine ⟨found, List.find?_eq_some_iff_append.2 ⟨?_, before, after, rfl, ?_⟩, hgeneration⟩
    · rw [hbest]
      exact Cost.same_self o.best.fitness.comparable
    · intro h hh
      rw [Cost.same_eq_false_of_lt (hbefore h hh)]
      rfl

/-- **The table of a search tells how it went.** -/
theorem history_tabulated (e : Evolution α) (clock : Nat → Nat) (s : σ) :
    Tabulates (rows none (e.history clock s).generations) (e.history clock s) := by
  rcases hstart : e.start.run s with ⟨fault | g, t⟩
  · rw [history_of_error clock hstart]
    exact ⟨.nil, fun h => absurd rfl h, nofun, nofun⟩
  · exact (course_history clock hstart).tabulates (sound_of_start (one_le_of_start hstart) hstart)
      (start_number hstart)

end

end Evolution

end RoadTrip
