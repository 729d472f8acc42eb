import Readiness.Proofs.Specialisation.Queue

/-!
# Exploring decides whether a call graph can be specialised

Instances are charted by their distance from the target (`Charted`).  Exploring a function keeps the
chart (`Charted.explore`), and so does exploring a level (`charted_of_level`).  Exploring is
complete exactly when it can be: then the instances seen are closed under calls, and otherwise there
is an instance on the chart that stands in the way (`exploreLevels_cases`).  Together with the queue
this is `explore_decides`.
-/

namespace Readiness.Specialisation

open Inference (Step Session run_bind)
open List Target

/-! ### Distances -/

/-- The answers to requests do not depend on the session. -/
def Answers (build : Target → Step Graph) (answer : Target → Except Refusal Graph) : Prop :=
  ∀ t s, ∃ s', build t s = (answer t, s')

def graphOf (root : Target) (g : Graph) (answer : Target → Except Refusal Graph) (t : Target) :
    Except Refusal Graph :=
  if t.same root then .ok g else answer t

/-- An instance is called from the target through a number of calls. -/
inductive CalledIn (image : Image) (graph : Target → Except Refusal Graph) (root : Target) :
    Nat → Target → Prop
  | root {t : Target} (h : t.same root = true) : CalledIn image graph root 0 t
  | call {n : Nat} {t u v : Target} {g : Graph} (ht : CalledIn image graph root n t)
    (hgraph : graph t = .ok g) (hcall : CalledBy image g u) (hsame : v.same u = true) :
    CalledIn image graph root (n + 1) v

/-- The least number of calls through which an instance is called. -/
def IsDistance (image : Image) (graph : Target → Except Refusal Graph) (root : Target) (n : Nat)
    (t : Target) : Prop :=
  CalledIn image graph root n t ∧ ∀ m < n, ¬ CalledIn image graph root m t

/-- An explored instance with its graph and its distance. -/
structure Visit where
  target : Target
  graph : Graph
  depth : Nat

variable {image : Image} {graph answer : Target → Except Refusal Graph} {root : Target}
  {build : Target → Step Graph} {limit depth : Nat} {may : Bool} {s s' : Session}

variable {t : Target}

theorem CalledIn.of_same {n : Nat} {u : Target} (h : CalledIn image graph root n t)
    (hsame : u.same t = true) : CalledIn image graph root n u := by
  cases h with
  | root h => exact .root (same_equivalence.trans hsame h)
  | call ht hgraph hcall h => exact .call ht hgraph hcall (same_equivalence.trans hsame h)

theorem IsSeen.of_same {seen : List Target} {u : Target} (h : IsSeen seen t)
    (hsame : u.same t = true) : IsSeen seen u :=
  h.imp fun _ hw => ⟨hw.1, same_equivalence.trans hsame hw.2⟩

/-! ### Charts -/

/-- The instances of a level and before it: those explored, those left of the level, and those met
for the next one. -/
structure Charted (image : Image) (graph : Target → Except Refusal Graph) (root : Target)
    (depth : Nat) (done rest new : List Visit) (f : Frontier) : Prop where
  seen_eq : f.seen = (done ++ rest ++ new).map Visit.target
  labels_eq : f.labels = done.map fun v => v.graph.label
  next_eq : f.next = new.map Visit.graph
  placed : ∀ v ∈ done ++ rest ++ new,
    graph v.target = .ok v.graph ∧ IsDistance image graph root v.depth v.target
  ordered : (done ++ rest ++ new).Pairwise fun v w =>
    w.target.same v.target = false ∧ v.depth ≤ w.depth
  explored : ∀ v ∈ done, Explored image v.graph f.seen
  done_depth : ∀ v ∈ done, v.depth ≤ depth
  rest_depth : ∀ v ∈ rest, v.depth = depth
  new_depth : ∀ v ∈ new, v.depth = depth + 1
  near : ∀ m ≤ depth, ∀ t, CalledIn image graph root m t → IsSeen f.seen t

variable {done rest new : List Visit} {f f' : Frontier} {v : Visit}

/-- The target itself is the first level. -/
theorem charted_start {g : Graph} (hgraph : graph root = .ok g) :
    Charted image graph root 0 [] [⟨root, g, 0⟩] [] ⟨[root], [], []⟩ where
  seen_eq := rfl
  labels_eq := rfl
  next_eq := rfl
  placed v hv := by
    cases mem_singleton.mp hv
    exact ⟨hgraph, .root (same_equivalence.refl root), fun m hm => absurd hm (Nat.not_lt_zero m)⟩
  ordered := pairwise_singleton _ _
  explored _ hv := nomatch hv
  done_depth _ hv := nomatch hv
  rest_depth v hv := by cases mem_singleton.mp hv; rfl
  new_depth _ hv := nomatch hv
  near m hm t ht := by
    cases Nat.le_zero.mp hm
    cases ht with
    | root h => exact ⟨root, mem_singleton_self root, h⟩

/-- An instance that is called for the first time is one call further away than the level. -/
theorem Charted.isDistance (h : Charted image graph root depth done (v :: rest) new f)
    (hcall : CalledBy image v.graph t) (hfresh : ¬ IsSeen f.seen t) :
    IsDistance image graph root (depth + 1) t := by
  obtain ⟨hgraph, hv, -⟩ := h.placed v (by simp)
  have hdepth := h.rest_depth v mem_cons_self
  refine ⟨.call (hdepth ▸ hv) hgraph hcall (same_equivalence.refl t), fun m hm ht => hfresh ?_⟩
  exact h.near m (Nat.lt_succ_iff.mp hm) t ht

/-- Exploring the next function of a level keeps the chart. -/
theorem Charted.explore (h : Charted image graph root depth done (v :: rest) new f)
    {met : List (Target × Graph)}
    (hgrown : Grown build may (CalledBy image v.graph) { f with labels := f.labels ++ [v.graph.label] }
      f' met)
    (hmet : ∀ w ∈ met, graph w.1 = .ok w.2) (hexplored : Explored image v.graph f'.seen) :
    Charted image graph root depth (done ++ [v]) rest
      (new ++ met.map fun w => ⟨w.1, w.2, depth + 1⟩) f' := by
  have hsplit : ∀ more : List Visit,
      done ++ [v] ++ rest ++ (new ++ more) = done ++ v :: rest ++ new ++ more := by simp
  have hmem : ∀ w ∈ met.map fun w => (⟨w.1, w.2, depth + 1⟩ : Visit), ∃ x ∈ met,
      w = ⟨x.1, x.2, depth + 1⟩ := fun w hw => by
    obtain ⟨x, hx, rfl⟩ := mem_map.mp hw
    exact ⟨x, hx, rfl⟩
  have hbefore : ∀ w ∈ done ++ v :: rest ++ new, w.depth ≤ depth + 1 := by
    intro w hw
    simp only [mem_append] at hw
    rcases hw with (hw | hw) | hw
    · exact Nat.le_succ_of_le (h.done_depth w hw)
    · exact Nat.le_succ_of_le (Nat.le_of_eq (h.rest_depth w hw))
    · exact Nat.le_of_eq (h.new_depth w hw)
  have hseen : ∀ t, IsSeen f.seen t → IsSeen f'.seen t := fun t => hgrown.isSeen
  refine
    { seen_eq := ?_, labels_eq := ?_, next_eq := ?_, placed := ?_, ordered := ?_, explored := ?_,
      done_depth := ?_, rest_depth := ?_, new_depth := ?_
      near := fun m hm t ht => hseen t (h.near m hm t ht) }
  · rw [hsplit, map_append, hgrown.seen_eq, ← h.seen_eq, map_map]
    rfl
  · rw [hgrown.labels_eq, map_append, ← h.labels_eq]
    rfl
  · rw [hgrown.next_eq, map_append, ← h.next_eq, map_map]
    rfl
  · intro w hw
    rw [hsplit] at hw
    rcases mem_append.mp hw with hw | hw
    · exact h.placed w hw
    · obtain ⟨x, hx, rfl⟩ := hmem w hw
      exact ⟨hmet x hx, h.isDistance (hgrown.called x hx) (hgrown.fresh x hx)⟩
  · rw [hsplit]
    refine pairwise_append.mpr ⟨h.ordered, pairwise_map.mpr ?_, ?_⟩
    · exact hgrown.distinct.imp fun hother => ⟨hother, Nat.le_refl _⟩
    · intro w hw x hx
      obtain ⟨y, hy, rfl⟩ := hmem x hx
      refine ⟨Bool.eq_false_iff.mpr fun hsame => hgrown.fresh y hy ⟨w.target, ?_, hsame⟩, hbefore w hw⟩
      exact h.seen_eq ▸ mem_map_of_mem hw
  · intro w hw
    rcases mem_append.mp hw with hw | hw
    · exact (h.explored w hw).mono hseen
    · exact mem_singleton.mp hw ▸ hexplored
  · intro w hw
    rcases mem_append.mp hw with hw | hw
    · exact h.done_depth w hw
    · exact mem_singleton.mp hw ▸ Nat.le_of_eq (h.rest_depth v mem_cons_self)
  · exact fun w hw => h.rest_depth w (mem_cons_of_mem _ hw)
  · intro w hw
    rcases mem_append.mp hw with hw | hw
    · exact h.new_depth w hw
    · obtain ⟨x, -, rfl⟩ := hmem w hw
      rfl

theorem Explored.isSeen {g : Graph} {seen : List Target} (h : Explored image g seen)
    (hcall : CalledBy image g t) : IsSeen seen t := by
  obtain ⟨st, hst, ts, hts, ht⟩ := hcall
  obtain ⟨ts', hts', hseen⟩ := h.calls st hst
  cases hts.symm.trans hts'
  exact hseen t ht

/-- When a level is explored, the instances met are the next one. -/
theorem Charted.descend (hsame : ∀ t u, t.same u = true → graph t = graph u)
    (h : Charted image graph root depth done [] new f) :
    Charted image graph root (depth + 1) done new [] { f with next := [] } := by
  have hsplit : done ++ [] ++ new = done ++ new ++ [] := by simp
  refine
    { seen_eq := hsplit ▸ h.seen_eq, labels_eq := h.labels_eq, next_eq := rfl,
      placed := hsplit ▸ h.placed, ordered := hsplit ▸ h.ordered, explored := h.explored,
      done_depth := fun w hw => Nat.le_succ_of_le (h.done_depth w hw), rest_depth := h.new_depth,
      new_depth := fun _ hw => (nomatch hw), near := fun m hm t ht => ?_ }
  rcases Nat.lt_or_ge m (depth + 1) with hlt | hge
  · exact h.near m (Nat.lt_succ_iff.mp hlt) t ht
  · cases Nat.le_antisymm hm hge
    cases ht with
    | @call _ caller _ _ g hcaller hgraph hcall ht =>
      obtain ⟨x, hx, hcx⟩ := h.near depth (Nat.le_refl _) caller hcaller
      rw [h.seen_eq] at hx
      obtain ⟨w, hw, rfl⟩ := mem_map.mp hx
      -- the caller is among the explored ones, because all others are further away
      have hdone : w ∈ done := by
        simp only [append_nil, mem_append] at hw
        refine hw.resolve_right fun hnew => ?_
        have hfar := (h.placed w (by simp [hnew])).2.2 depth (by rw [h.new_depth w hnew]; omega)
        exact hfar (hcaller.of_same (same_equivalence.symm hcx))
      have hown := (h.placed w (by simp [hdone])).1
      cases (hsame _ _ hcx ▸ hgraph).symm.trans hown
      exact ((h.explored w hdone).isSeen hcall).of_same ht

/-- Something on the chart keeps the functions from being specialised, and not only that no level
may follow. -/
def Halted (image : Image) (build : Target → Step Graph) (graph : Target → Except Refusal Graph)
    (root : Target) (limit : Nat) : Prop :=
  ∃ depth may done v rest new f, (may = false → depth = limit) ∧
    Charted image graph root depth done (v :: rest) new f ∧ Obstructed image build may f.seen v.graph

/-- Exploring what is left of a level keeps the chart, or is obstructed. -/
theorem charted_of_foldlM (hmay : may = false → depth = limit)
    (hbuilt : ∀ t g, Built build t g → ¬ t.same root = true → graph t = .ok g) (rest : List Visit) :
    ∀ {done new : List Visit} {f : Frontier} {s s' : Session} {r : Except Refusal Advance},
      Charted image graph root depth done rest new f →
      (rest.map Visit.graph).foldlM (exploreFunction image build (depth + 1) may) (.going f) s =
        (r, s') →
      (∃ f' new', r = .ok (.going f') ∧ Charted image graph root depth (done ++ rest) [] new' f') ∨
      (∀ f', r ≠ .ok (.going f')) ∧ Halted image build graph root limit := by
  induction rest with
  | nil =>
    intro done new f s s' r hc h
    cases h
    exact .inl ⟨f, new, rfl, by simpa using hc⟩
  | cons v rest ih =>
    intro done new f s s' r hc h
    rw [map_cons, foldlM_cons, run_bind] at h
    generalize hrun : exploreFunction image build (depth + 1) may (.going f) v.graph s = run at h
    obtain ⟨r₁, s₁⟩ := run
    rcases exploreFunction_cases hrun with ⟨f₁, met, rfl, hgrown, hexplored⟩ | ⟨hnot, hobstructed⟩
    · -- the target itself is seen, so the graphs of the others are answers
      have hroot : IsSeen f.seen root :=
        hc.near 0 (Nat.zero_le _) root (.root (same_equivalence.refl root))
      have hmet : ∀ w ∈ met, graph w.1 = .ok w.2 := fun w hw =>
        hbuilt w.1 w.2 (hgrown.built w hw) fun hsame => hgrown.fresh w hw (hroot.of_same hsame)
      have hrest := ih (hc.explore hgrown hmet hexplored) h
      rwa [append_assoc] at hrest
    · have hhalted : Halted image build graph root limit :=
        ⟨depth, may, done, v, rest, new, f, hmay, hc, hobstructed⟩
      rcases r₁ with e | labels | f₁
      · cases h
        exact .inr ⟨fun _ h => (nomatch h), hhalted⟩
      · cases (foldlM_stopped (fun _ _ _ => rfl) _ labels s₁).symm.trans h
        exact .inr ⟨fun _ h => (nomatch h), hhalted⟩
      · exact absurd rfl (hnot f₁)

/-- A level is explored and the chart is kept, or exploring is not complete. -/
theorem charted_of_level (hmay : may = false → depth = limit)
    (hbuilt : ∀ t g, Built build t g → ¬ t.same root = true → graph t = .ok g)
    (hc : Charted image graph root depth done rest [] { f with next := [] })
    (hnext : f.next = rest.map Visit.graph) {follow : Advance → Step Exploration}
    (hfollow : ∀ labels s, follow (.stopped labels) s = (.ok ⟨false, labels⟩, s))
    {r : Except Refusal Exploration}
    (h : (exploreLevel image build (depth + 1) may f >>= follow) s = (r, s')) :
    (∃ f' new' s₁, exploreLevel image build (depth + 1) may f s = (.ok (.going f'), s₁) ∧
      Charted image graph root depth (done ++ rest) [] new' f' ∧ follow (.going f') s₁ = (r, s')) ∨
    (∀ labels, r ≠ .ok ⟨true, labels⟩) ∧ Halted image build graph root limit := by
  rw [run_bind] at h
  generalize hrun : exploreLevel image build (depth + 1) may f s = run at h
  obtain ⟨r₁, s₁⟩ := run
  have hloop := hrun
  rw [exploreLevel, hnext] at hloop
  rcases charted_of_foldlM hmay hbuilt rest hc hloop with ⟨f', new', rfl, hlevel⟩ | ⟨hnot, hhalted⟩
  · exact .inl ⟨f', new', s₁, rfl, hlevel, h⟩
  · refine .inr ⟨?_, hhalted⟩
    rintro labels rfl
    rcases r₁ with _ | _ | f'
    · cases h
    · cases (hfollow _ s₁).symm.trans h
    · exact hnot f' rfl

/-! ### Complete explorations -/

/-- Instances that are closed under calls: each with its graph and its distance from the target,
which is within the limit, each once and the nearer ones first; their slots are concrete, and all
their calls are determined and lead to these instances again. -/
structure Specialised (image : Image) (graph : Target → Except Refusal Graph) (root : Target)
    (limit : Nat) (visits : List Visit) : Prop where
  root_seen : IsSeen (visits.map Visit.target) root
  graph_eq : ∀ v ∈ visits, graph v.target = .ok v.graph
  explored : ∀ v ∈ visits, Explored image v.graph (visits.map Visit.target)
  distance : ∀ v ∈ visits, IsDistance image graph root v.depth v.target
  depth_le : ∀ v ∈ visits, v.depth ≤ limit
  distinct : visits.Pairwise fun v w => w.target.same v.target = false
  sorted : visits.Pairwise fun v w => v.depth ≤ w.depth

/-- When nothing is met for another level, the instances explored are closed under calls. -/
theorem Charted.specialised (h : Charted image graph root depth done [] new f)
    (hnext : f.next = []) (hdepth : depth ≤ limit) :
    ∃ visits, Specialised image graph root limit visits ∧
      f.labels = visits.map fun v => v.graph.label := by
  obtain rfl : new = [] := by simpa [hnext] using h.next_eq
  have hseen : f.seen = done.map Visit.target := by simpa using h.seen_eq
  have hplaced := h.placed
  have hordered := h.ordered
  rw [append_nil, append_nil] at hplaced hordered
  exact ⟨done, ⟨hseen ▸ h.near 0 (Nat.zero_le _) root (.root (same_equivalence.refl root)),
    fun v hv => (hplaced v hv).1, hseen ▸ h.explored, fun v hv => (hplaced v hv).2,
    fun v hv => Nat.le_trans (h.done_depth v hv) hdepth, hordered.imp And.left,
    hordered.imp And.right⟩, h.labels_eq⟩

/-- Exploring levels finds instances that are closed under calls, or something is in the way. -/
theorem exploreLevels_cases (hsame : ∀ t u, t.same u = true → graph t = graph u)
    (hbuilt : ∀ t g, Built build t g → ¬ t.same root = true → graph t = .ok g) (room : Nat) :
    ∀ {depth : Nat} {done rest : List Visit} {f : Frontier} {s s' : Session}
      {r : Except Refusal Exploration},
      Charted image graph root depth done rest [] { f with next := [] } →
      f.next = rest.map Visit.graph → depth + room = limit →
      exploreLevels image build room depth f s = (r, s') →
      (∃ visits, Specialised image graph root limit visits ∧
        r = .ok ⟨true, visits.map fun v => v.graph.label⟩) ∨
      (∀ labels, r ≠ .ok ⟨true, labels⟩) ∧ Halted image build graph root limit := by
  induction room with
  | zero =>
    intro depth done rest f s s' r hc hnext hroom h
    rw [exploreLevels] at h
    rcases charted_of_level (fun _ => by omega) hbuilt hc hnext (fun _ _ => rfl) h with
      ⟨f', new, s₁, hrun, hlevel, h⟩ | hnot
    · obtain ⟨visits, hspecialised, hlabels⟩ :=
        hlevel.specialised (next_of_last_level f.next hrun) (by omega : depth ≤ limit)
      cases h
      exact .inl ⟨visits, hspecialised, by rw [hlabels]⟩
    · exact .inr hnot
  | succ room ih =>
    intro depth done rest f s s' r hc hnext hroom h
    rw [exploreLevels] at h
    rcases charted_of_level (fun h => Bool.noConfusion h) hbuilt hc hnext (fun _ _ => rfl) h with
      ⟨f', new, s₁, -, hlevel, h⟩ | hnot
    · simp only at h
      split at h
      · rename_i hempty
        obtain ⟨visits, hspecialised, hlabels⟩ :=
          hlevel.specialised (isEmpty_iff.mp hempty) (by omega : depth ≤ limit)
        cases h
        exact .inl ⟨visits, hspecialised, by rw [hlabels]⟩
      · exact ih (hlevel.descend hsame) hlevel.next_eq (by omega) h
    · exact .inr hnot

/-- A call graph can be specialised: all instances called have graphs with concrete slots and
determined calls, within the limit. -/
def Specialisable (image : Image) (graph : Target → Except Refusal Graph) (root : Target)
    (limit : Nat) : Prop :=
  ∀ n t, CalledIn image graph root n t → ∃ g, graph t = .ok g ∧ isConcrete g = true ∧
    (∀ st ∈ g.statements, ∃ ts, callees image g st = .ok ts) ∧
    ∃ m ≤ limit, CalledIn image graph root m t

/-- Nothing is in the way when a call graph can be specialised. -/
theorem not_halted (hgraph : ∀ t g, graph t = .ok g → ¬ t.same root = true → ¬ Refused build t)
    (h : Specialisable image graph root limit) : ¬ Halted image build graph root limit := by
  rintro ⟨depth, may, done, v, rest, new, f, hmay, hc, hobstructed⟩
  obtain ⟨hgraph', hcalled, -⟩ := hc.placed v (by simp)
  obtain ⟨g, hg, hconcrete, hdetermined, -⟩ := h _ _ hcalled
  cases hgraph'.symm.trans hg
  rcases hobstructed with habstract | ⟨st, hst, e, he⟩ | ⟨t, hcall, hfresh, hcause⟩
  · exact nomatch habstract.symm.trans hconcrete
  · obtain ⟨ts, hts⟩ := hdetermined st hst
    exact nomatch he.symm.trans hts
  · have hdistance := hc.isDistance hcall hfresh
    obtain ⟨g', hg', -, -, m, hm, hnear⟩ := h _ _ hdistance.1
    rcases hcause with hlast | hrefused
    · exact hfresh (hc.near m (hmay hlast ▸ hm) t hnear)
    · have hroot : IsSeen f.seen root :=
        hc.near 0 (Nat.zero_le _) root (.root (same_equivalence.refl root))
      exact hgraph t g' hg' (fun hsame => hfresh (hroot.of_same hsame)) hrefused

/-- Exploring decides whether a call graph can be specialised.  It ends on every call graph, with
what a queue of functions comes to.  If it says that all functions can be specialised, the instances
seen are closed under calls, and the labels are theirs, each once and the nearer ones first.  If all
instances called from the target can be specialised, it says so. -/
theorem explore_decides (image : Image) {build : Target → Step Graph}
    {answer : Target → Except Refusal Graph} (hanswers : Answers build answer)
    (hsame : ∀ t u, t.same u = true → answer t = answer u) (limit : Nat) (root : Target) (g : Graph)
    (s : Session) :
    Drains image build limit [root] [] [(g, 0)] s (explore image build limit root g s).1
      (explore image build limit root g s).2 ∧
    (∀ labels, (explore image build limit root g s).1 = .ok ⟨true, labels⟩ →
      ∃ visits, Specialised image (graphOf root g answer) root limit visits ∧
        labels = visits.map fun v => v.graph.label) ∧
    (Specialisable image (graphOf root g answer) root limit →
      ∃ labels, (explore image build limit root g s).1 = .ok ⟨true, labels⟩) := by
  have hanswer : ∀ t s r s', build t s = (r, s') → answer t = r := by
    intro t s r s' h
    obtain ⟨s'', h'⟩ := hanswers t s
    cases h'.symm.trans h
    rfl
  have hother : ∀ t, ¬ t.same root = true → graphOf root g answer t = answer t := fun t ht => if_neg ht
  have hsameGraph : ∀ t u, t.same u = true → graphOf root g answer t = graphOf root g answer u := by
    intro t u htu
    unfold graphOf
    rw [hsame t u htu]
    have hiff : t.same root = true ↔ u.same root = true :=
      ⟨Target.same_equivalence.trans (Target.same_equivalence.symm htu),
        Target.same_equivalence.trans htu⟩
    simp only [hiff]
  have hbuilt : ∀ t h, Built build t h → ¬ t.same root = true → graphOf root g answer t = .ok h :=
    fun t h ⟨s, s', hrun⟩ ht => (hother t ht).trans (hanswer t s _ s' hrun)
  have hrefused : ∀ t h, graphOf root g answer t = .ok h → ¬ t.same root = true → ¬ Refused build t :=
    fun t h hh ht ⟨e, s, s', hrun⟩ =>
      nomatch ((hother t ht).symm.trans hh).symm.trans (hanswer t s _ s' hrun)
  have hstart : graphOf root g answer root = .ok g := if_pos (Target.same_equivalence.refl root)
  have hcases := exploreLevels_cases hsameGraph hbuilt limit (charted_start hstart) rfl
    (Nat.zero_add limit) (show explore image build limit root g s = (_, _) from rfl)
  refine ⟨drains_explore limit root g s, fun labels hlabels => ?_, fun hspecialisable => ?_⟩
  · rcases hcases with ⟨visits, hvisits, hr⟩ | ⟨hnot, -⟩
    · cases hlabels.symm.trans hr
      exact ⟨visits, hvisits, rfl⟩
    · exact absurd hlabels (hnot labels)
  · rcases hcases with ⟨visits, -, hr⟩ | ⟨-, hhalted⟩
    · exact ⟨_, hr⟩
    · exact absurd hhalted (not_halted hrefused hspecialisable)

/-! ### Two functions that call each other -/

/-- A program with two functions of one parameter. -/
def duet : Image :=
  { Image.empty with
    functions := #["ping", "pong"].map fun name => { (default : Image.Function) with
      name, qualname := name, signature := ⟨[⟨"n", .positional, none, none⟩], none⟩ } }

def duetTarget (id : Nat) : Target := ⟨.function id, [.cls .int]⟩

/-- The graph of a function that hands its parameter on to a function. -/
def handsOn (label : String) (callee : Nat) : Graph :=
  { Graph.start label label ["n"] with
    blocks := #[
      { kind := "entry", statements := #[
        { kind := .call, op := "call", location := default, index := 0, target := some "%0",
          operands := [.var "n"],
          call := some { dispatch := .static, calleeName := "f", callee := .function callee } }] },
      { kind := "exit" }]
    edges := #[⟨0, 1, .fallThrough⟩]
    types := Table.ofList [("n", TypeSet.ofClass .int)] }

/-- Only the second function is asked for, and it calls the first one. -/
def duetAnswer (t : Target) : Except Refusal Graph :=
  if t.same (duetTarget 1) then .ok (handsOn "pong(int)" 0)
  else .error (.unavailable .unreadable none)

def completeLabels : Except Refusal Exploration → Option (List String)
  | .ok ⟨true, labels⟩ => some labels
  | _ => none

theorem duet_explore_decides :
    Answers (fun t => liftM (duetAnswer t)) duetAnswer ∧
    (∀ t u, t.same u = true → duetAnswer t = duetAnswer u) ∧
    ∃ visits, Specialised duet (graphOf (duetTarget 0) (handsOn "ping(int)" 1) duetAnswer)
        (duetTarget 0) 1 visits ∧
      (visits.map fun v => v.graph.label) = ["ping(int)", "pong(int)"] := by
  have hanswers : Answers (fun t => liftM (duetAnswer t)) duetAnswer := by
    intro t s
    refine ⟨s, ?_⟩
    dsimp only
    cases duetAnswer t <;> rfl
  have hsame : ∀ t u, t.same u = true → duetAnswer t = duetAnswer u := by
    intro t u htu
    have hiff : t.same (duetTarget 1) = true ↔ u.same (duetTarget 1) = true :=
      ⟨Target.same_equivalence.trans (Target.same_equivalence.symm htu),
        Target.same_equivalence.trans htu⟩
    simp only [duetAnswer, hiff]
  have hlabels : completeLabels (explore duet (fun t => liftM (duetAnswer t)) 1 (duetTarget 0)
      (handsOn "ping(int)" 1) Session.empty).1 = some ["ping(int)", "pong(int)"] := by
    decide +kernel
  obtain ⟨-, hcomplete, -⟩ := explore_decides duet hanswers hsame 1 (duetTarget 0)
    (handsOn "ping(int)" 1) Session.empty
  unfold completeLabels at hlabels
  split at hlabels
  · rename_i labels hresult
    obtain ⟨visits, hvisits, rfl⟩ := hcomplete labels hresult
    exact ⟨hanswers, hsame, visits, hvisits, Option.some.inj hlabels⟩
  · cases hlabels

end Readiness.Specialisation
