import TaskGraph.Proofs.Engine.Waiting

/-!
Runs of different definitions that share the resources of an engine. They do not block each other if
their tags can be ranked for all of them together; that each of them can be built is not enough.
-/

namespace TaskGraph.Engine

open Admission Relation

/-- Nodes of two started runs wait for tags that they cannot have, and whoever holds one of these
contains a node that waits. -/
structure World.IsDeadlocked (w : World) (m n : Nat) : Prop where
  first : ∃ p, w.IsWaiting p ∧ p.id.run.root = m
  second : ∃ p, w.IsWaiting p ∧ p.id.run.root = n
  stuck : ∀ p, w.IsWaiting p → w.admission.canGrant p = false
  held : ∀ p, w.IsWaiting p → ∀ tag ∈ p.request.tags, ∀ h ∈ w.admission.parties,
    h.holds tag = true → ¬ w.IsCalm h.id

/-- Runs of definitions do not deadlock if the pairs of tags of all of them, taken together, have no
fault. -/
theorem not_deadlocked_of_tagFaults {config : Config} {setting : Setting} {e : Engine}
    (hmake : make config setting = .ok e) {required : List String} {ds : List Definition}
    (hf : Graph.tagFaults (ds.flatMap Definition.tagPairs) = []) {w : World}
    (hr : Reaches { e with required } w)
    (hof : ∀ r ∈ w.runs, r.id.steps = [] → ∃ d ∈ ds, e.validate d = .ok r.schedule.graph)
    (m n : Nat) : ¬ w.IsDeadlocked m n := by
  intro hdead
  obtain ⟨-,hfree⟩ := w.no_circle hr (fun tag => pools_of_make hmake tag) hf hof
  obtain ⟨p,hp,-⟩ := hdead.first
  obtain ⟨q,-,hq,hg | ⟨tag,htag,h,hh,hholds,hcalm⟩⟩ := hfree p hp
  · rw [hdead.stuck q hq] at hg
    cases hg
  · exact hdead.held q hq tag htag h hh hholds hcalm

namespace Crossing

abbrev engine : Engine := { config := {}, pools := {}, setting := { actions := [] } }

/-- A node that needs a tag, and inside it one that needs another. -/
abbrev definition (outer inner : String) : Definition where
  name := outer ++ " before " ++ inner
  nodes := [("outer",{
    kind := .sequence (.steps [("inner",{ kind := .action "echo" .null, resources := [inner] })])
    resources := [outer] })]

abbrev outer (n : Nat) : TaskId := ⟨⟨n,[]⟩,"outer"⟩

abbrev inner (n : Nat) : TaskId := ⟨(outer n).child 0,"inner"⟩

/-- Both outer nodes are admitted before an inner one asks. -/
abbrev moves : List Move :=
  [.pass ⟨0,[]⟩,.pass ⟨1,[]⟩,.step (outer 0),.step (outer 1),.pass ((outer 0).child 0),
    .pass ((outer 1).child 0),.step (inner 0)]

theorem ladder_isSome : (scene engine (definition "a" "b") (definition "b" "c") moves).isSome =
    true := by decide +kernel

/-- The first run waits for the tag that the second one has. -/
def ladder : World := (scene engine (definition "a" "b") (definition "b" "c") moves).get ladder_isSome

theorem ladder_isWaiting : ∃ p, ladder.IsWaiting p ∧ p.id = inner 0 := by
  have h : ∃ p ∈ ladder.admission.parties, p.holdsTags = false ∧ p.id = inner 0 := by decide +kernel
  obtain ⟨p,hp,hw,hid⟩ := h
  exact ⟨p,⟨hp,hw⟩,hid⟩

end Crossing

/-- With a before b and b before c a run waits for the other, and not the other way round. -/
theorem not_deadlocked_ladder : (∃ p, Crossing.ladder.IsWaiting p ∧ p.id = Crossing.inner 0) ∧
    ∀ m n, ¬ Crossing.ladder.IsDeadlocked m n := by
  have hmake : make {} { actions := [] } = .ok Crossing.engine := rfl
  have hf : Graph.tagFaults ([Crossing.definition "a" "b",Crossing.definition "b" "c"].flatMap
      Definition.tagPairs) = [] := by decide
  obtain ⟨hr,hroots⟩ := reaches_scene rfl rfl (Option.some_get Crossing.ladder_isSome).symm
  refine ⟨Crossing.ladder_isWaiting,not_deadlocked_of_tagFaults hmake hf hr fun r hrun hsteps => ?_⟩
  obtain ⟨-,hv⟩ | ⟨-,hv⟩ := hroots r hrun hsteps
  · exact ⟨_,List.mem_cons_self,hv⟩
  · exact ⟨_,List.mem_cons_of_mem _ List.mem_cons_self,hv⟩

namespace Crossing

abbrev left : Definition := definition "a" "b"

abbrev right : Definition := definition "b" "a"

theorem world_isSome : (scene engine left right (moves ++ [.step (inner 1)])).isSome = true := by
  decide +kernel

/-- Both inner nodes have asked. -/
def world : World := (scene engine left right (moves ++ [.step (inner 1)])).get world_isSome

theorem isWaiting {n : Nat} (hn : n < 2) : ∃ p, world.IsWaiting p ∧ p.id = inner n := by
  have hall : ∀ n < 2, ∃ p ∈ world.admission.parties, p.holdsTags = false ∧ p.id = inner n := by
    decide +kernel
  obtain ⟨p,hp,hw,hid⟩ := hall n hn
  exact ⟨p,⟨hp,hw⟩,hid⟩

theorem isDeadlocked : world.IsDeadlocked 0 1 where
  first := by
    obtain ⟨p,hp,hid⟩ := isWaiting (n := 0) (by decide)
    exact ⟨p,hp,congrArg (·.run.root) hid⟩
  second := by
    obtain ⟨p,hp,hid⟩ := isWaiting (n := 1) (by decide)
    exact ⟨p,hp,congrArg (·.run.root) hid⟩
  stuck p hp := by
    have hall : ∀ p ∈ world.admission.parties, world.admission.canGrant p = false := by
      decide +kernel
    exact hall p hp.1
  held p hp tag htag h hh hholds hcalm := by
    have hall : ∀ h ∈ world.admission.parties, h.holdsTags = true → ∃ n < 2, h.id = outer n := by
      decide +kernel
    rw [Party.holds,Bool.and_eq_true] at hholds
    obtain ⟨n,hn,hid⟩ := hall h hh hholds.1
    obtain ⟨q,hq,hqid⟩ := isWaiting hn
    refine hcalm q hq ?_
    rw [hid,hqid]
    exact ⟨0,RunId.isWithin_self _⟩

end Crossing

/-- Two different definitions can both be built and yet deadlock each other: one needs b inside a node
that has a, the other a inside one that has b. -/
theorem crossing_definitions_deadlock :
    ¬ ∀ (config : Config) (setting : Setting) (e : Engine) (d₁ d₂ : Definition) (g₁ g₂ : Graph)
      (w : World), make config setting = .ok e → d₁ ≠ d₂ → e.validate d₁ = .ok g₁ →
      e.validate d₂ = .ok g₂ → Reaches e w →
      (∀ r ∈ w.runs, r.id.steps = [] → r.id.root = 0 ∧ r.schedule.graph = g₁ ∨
        r.id.root = 1 ∧ r.schedule.graph = g₂) → ¬ w.IsDeadlocked 0 1 := by
  intro hclaim
  have hne : Crossing.left ≠ Crossing.right := by
    intro h
    have : "a before b" = "b before a" := congrArg Definition.name h
    exact absurd this (by decide)
  have hleft : Crossing.engine.validate Crossing.left =
      .ok (Crossing.left.block.toGraph standardCap) := rfl
  have hright : Crossing.engine.validate Crossing.right =
      .ok (Crossing.right.block.toGraph standardCap) := rfl
  obtain ⟨hr,hroots⟩ := reaches_scene rfl rfl (Option.some_get Crossing.world_isSome).symm
  refine hclaim {} { actions := [] } Crossing.engine Crossing.left Crossing.right _ _ Crossing.world rfl
    hne hleft hright hr (fun r hrun hsteps => ?_) Crossing.isDeadlocked
  obtain ⟨hn,hv⟩ | ⟨hn,hv⟩ := hroots r hrun hsteps
  · exact .inl ⟨hn,(Except.ok.inj (hleft.symm.trans hv)).symm⟩
  · exact .inr ⟨hn,(Except.ok.inj (hright.symm.trans hv)).symm⟩

end TaskGraph.Engine
