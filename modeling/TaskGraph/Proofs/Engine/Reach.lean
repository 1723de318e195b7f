import TaskGraph.Proofs.Engine.RunTurn
import TaskGraph.Proofs.Engine.TaskTurn
import TaskGraph.Proofs.Graph.Built

/-!
All that an engine may come to, with runs started at any moment and moves in any order. In every such
world runs and tasks fit together.
-/

namespace TaskGraph

namespace Engine

/-- The started run whose turn a move is. -/
def Move.root? : Move → Option Nat
  | .pass run | .notice run | .expire run | .take run => some run.root
  | .step task => some task.run.root
  | .cancel _ | .tick _ => none

/-- The run in which a move happens. -/
def Move.run? : Move → Option RunId
  | .pass run | .notice run | .expire run | .take run => some run
  | .step task => some task.run
  | .cancel _ | .tick _ => none

theorem Move.root?_eq (m : Move) : m.root? = m.run?.map RunId.root := by
  cases m <;> rfl

/-- A step, and the started run whose turn it is, if it is any. -/
inductive Step (e : Engine) : Option Nat → World → World → Prop
  /-- A definition is started under a number that is not taken. -/
  | start {w w' : World} {d : Definition} {given : Fields} {number : Nat}
    {cancelAt : Option Duration} : d.isKeyed = true → (∀ r ∈ w.runs, r.id.root ≠ number) →
    e.start w d given number cancelAt = .ok w' → Step e none w w'
  | move {w w' : World} {m : Move} : w.move? e.setting m = some w' → Step e m.root? w w'
  /-- Who has its turn next, and when runs are going to be cancelled, is open. -/
  | agenda (w : World) (ready : List Agent) (plans : List (Nat × Timer)) :
    Step e none w { w with ready, plans }

/-- The worlds that an engine comes to. -/
inductive Reaches (e : Engine) : World → Prop
  | world : Reaches e e.world
  | step {w w' : World} {turn : Option Nat} : Reaches e w → Step e turn w w' → Reaches e w'

/-- The worlds that come later, with the number of moves that a started run has made until then. -/
inductive Later (e : Engine) (n : Nat) (w : World) : Nat → World → Prop
  | refl : Later e n w 0 w
  | step {v v' : World} {k : Nat} {turn : Option Nat} : Later e n w k v → Step e turn v v' →
    Later e n w (if turn = some n then k+1 else k) v'

variable {e : Engine} {w w' : World}

def firstRun (w : World) (d : Definition) (graph : Graph) (bindings : Fields) (number : Nat)
    (expiry : Option Timer) : Run where
  id := ⟨number,[]⟩
  name := d.name
  path := ""
  schedule := .start graph { bindings }
  expiry
  published := [(w.clock,⟨⟨number,[]⟩,(Schedule.start graph { bindings }).statuses,false⟩)]

theorem firstRun_isNew (w : World) (d : Definition) (graph : Graph) (bindings : Fields)
    (number : Nat) (expiry : Option Timer) :
    (firstRun w d graph bindings number expiry).IsNew graph := ⟨⟨_,rfl⟩,rfl,rfl,rfl,.inl rfl⟩

theorem wake_run_alike {v : World} (hv : World.Alike w v) (run : Run) (a : Agent) :
    World.Alike { w with runs := w.runs ++ [run] } ({ v with runs := v.runs ++ [run] }.wake a) := by
  have hadd : World.Alike { w with runs := w.runs ++ [run] } { v with runs := v.runs ++ [run] } :=
    ⟨hv.clock,congrArg (· ++ [run]) hv.runs,hv.tasks,hv.cancelled,hv.invocations⟩
  exact hadd.trans (World.wake_alike _ a)

theorem plan_alike (w : World) (d : Duration) (number : Nat) : World.Alike w
    ({ (w.startTimer d).1 with
      plans := (w.startTimer d).1.plans ++ [(number,(w.startTimer d).2)] }.wake (.plan number)) := by
  have hplan : World.Alike w { (w.startTimer d).1 with
      plans := (w.startTimer d).1.plans ++ [(number,(w.startTimer d).2)] } := ⟨rfl,rfl,rfl,rfl,rfl⟩
  exact hplan.trans (World.wake_alike _ _)

theorem validate_eq_ok {d : Definition} {g : Graph} :
    e.validate d = .ok g ↔ d.build e.config.maxIterations = .ok g := by
  unfold validate
  cases d.build e.config.maxIterations <;> simp [Except.mapError]

/-- What starts is the first run of the graph of the definition. -/
theorem start_firstRun {d : Definition} {given : Fields} {number : Nat}
    {cancelAt : Option Duration} (h : e.start w d given number cancelAt = .ok w') :
    ∃ graph bindings expiry, d.build e.config.maxIterations = .ok graph ∧
      World.Alike { w with runs := w.runs ++ [firstRun w d graph bindings number expiry] } w' ∧
      w'.admission = w.admission := by
  unfold start at h
  cases hv : e.validate d with
  | error f =>
    rw [hv] at h
    cases h
  | ok graph =>
    rw [hv] at h
    cases hb : e.bindings d given with
    | error f =>
      simp only [hb,bind,Except.bind] at h
      cases h
    | ok bindings =>
      simp only [hb,bind,Except.bind,Except.ok.injEq] at h
      have hbuild := validate_eq_ok.mp hv
      subst h
      cases e.config.runTimeout with
      | none =>
        have hrun := wake_run_alike (.refl w) (firstRun w d graph bindings number none)
          (.root number)
        have hadm := World.wake_admission
          { w with runs := w.runs ++ [firstRun w d graph bindings number none] } (.root number)
        refine ⟨graph,bindings,none,hbuild,?_,?_⟩
        · cases cancelAt with
          | none => exact hrun
          | some delay => exact hrun.trans (plan_alike _ delay number)
        · cases cancelAt with
          | none => exact hadm
          | some delay => exact (World.wake_admission _ _).trans hadm
      | some limit =>
        have hrun := wake_run_alike (World.startTimer_alike w limit)
          (firstRun w d graph bindings number (some (w.startTimer limit).2)) (.root number)
        have hadm := World.wake_admission { (w.startTimer limit).1 with
          runs := w.runs ++ [firstRun w d graph bindings number (some (w.startTimer limit).2)] }
          (.root number)
        refine ⟨graph,bindings,some (w.startTimer limit).2,hbuild,?_,?_⟩
        · cases cancelAt with
          | none => exact hrun
          | some delay => exact hrun.trans (plan_alike _ delay number)
        · cases cancelAt with
          | none => exact hadm
          | some delay => exact (World.wake_admission _ _).trans hadm

/-- What starts is a new run of the graph of the definition. -/
theorem start_spec {d : Definition} {given : Fields} {number : Nat} {cancelAt : Option Duration}
    (h : e.start w d given number cancelAt = .ok w') : ∃ graph run,
      d.build e.config.maxIterations = .ok graph ∧ run.IsNew graph ∧ run.id = ⟨number,[]⟩ ∧
      World.Alike { w with runs := w.runs ++ [run] } w' ∧ run.held = [] ∧
      w'.admission = w.admission := by
  obtain ⟨graph,bindings,expiry,hbuild,ha,hadm⟩ := start_firstRun h
  exact ⟨graph,_,hbuild,firstRun_isNew w d graph bindings number expiry,rfl,ha,rfl,hadm⟩

namespace World

/-- What a move is, by the run or the task that makes it. -/
theorem move_cases {σ : Setting} {m : Move} (h : w.move? σ m = some w') :
    (∃ r ∈ w.runs, m.run? = some r.id ∧ RunTurn w r w') ∨
    (∃ t ∈ w.tasks, m = .step t.id ∧ w.stepTask σ t = some w') ∨
    m.root? = none ∧ ((∃ n, w' = w.cancel n) ∨ ∃ millis, w' = { w with clock := w.clock+millis }) := by
  have hrun {id : RunId} {f : Run → Option World}
      (h : (w.run? id >>= f) = some w') : ∃ r ∈ w.runs, r.id = id ∧ f r = some w' := by
    obtain ⟨r,hr,hf⟩ := Option.bind_eq_some_iff.mp h
    obtain ⟨hm,hid⟩ := mem_of_run? hr
    exact ⟨r,hm,hid,hf⟩
  cases m with
  | pass id =>
    obtain ⟨r,hr,rfl,hf⟩ := hrun h
    refine .inl ⟨r,hr,rfl,?_⟩
    cases hp : r.phase with
    | passing =>
      rw [hp] at hf
      cases hf
      exact .passes hp
    | _ =>
      rw [hp] at hf
      cases hf
  | notice id =>
    obtain ⟨r,hr,rfl,hf⟩ := hrun h
    refine .inl ⟨r,hr,rfl,?_⟩
    cases hp : r.phase with
    | waiting =>
      simp only [hp] at hf
      split at hf
      · next hc =>
        rw [Bool.and_eq_true,Bool.not_eq_true'] at hc
        cases hf
        exact .notices hp hc.1 hc.2
      · cases hf
    | _ =>
      rw [hp] at hf
      cases hf
  | expire id =>
    obtain ⟨r,hr,rfl,hf⟩ := hrun h
    refine .inl ⟨r,hr,rfl,?_⟩
    cases hp : r.phase with
    | waiting =>
      simp only [hp] at hf
      split at hf
      · next hc =>
        rw [Bool.and_eq_true,Bool.not_eq_true'] at hc
        cases hf
        exact .expires hp hc.1 hc.2
      · cases hf
    | _ =>
      rw [hp] at hf
      cases hf
  | take id =>
    obtain ⟨r,hr,rfl,hf⟩ := hrun h
    refine .inl ⟨r,hr,rfl,?_⟩
    split at hf
    · next e rest hp hi =>
      cases hf
      exact .takes hp hi
    · cases hf
  | step id =>
    obtain ⟨t,ht,hf⟩ := Option.bind_eq_some_iff.mp h
    obtain ⟨hm,rfl⟩ := mem_of_task? ht
    exact .inr (.inl ⟨t,hm,rfl,hf⟩)
  | cancel n => exact .inr (.inr ⟨rfl,.inl ⟨n,(Option.some.inj h).symm⟩⟩)
  | tick millis => exact .inr (.inr ⟨rfl,.inr ⟨millis,(Option.some.inj h).symm⟩⟩)

theorem Coherent.start (h : w.Coherent) {run : Run} {graph : Graph} {number : Nat}
    (hn : run.IsNew graph) (hg : graph.Neat) (hid : run.id = ⟨number,[]⟩)
    (hfree : ∀ r ∈ w.runs, r.id.root ≠ number) :
    ({ w with runs := w.runs ++ [run] } : World).Coherent := by
  have hmem {q : Run} : q ∈ w.runs ++ [run] ↔ q ∈ w.runs ∨ q = run := by simp
  constructor
  · rw [List.map_append]
    refine List.nodup_append.mpr ⟨h.runs_nodup,by simp,fun a ha b hb he => ?_⟩
    obtain ⟨r,hr,rfl⟩ := List.mem_map.mp ha
    rw [List.map_singleton,List.mem_singleton] at hb
    exact hfree r hr (by rw [he,hb,hid])
  · exact h.tasks_nodup
  · intro q hq
    rcases hmem.mp hq with hq | rfl
    · exact h.run q hq
    · exact hn.sensible hg
  · exact h.task
  · intro t ht
    obtain ⟨r,hr,ha⟩ := h.home t ht
    exact ⟨r,hmem.mpr (.inl hr),ha⟩
  · intro q hq id hi
    rcases hmem.mp hq with hq | rfl
    · exact h.carried q hq id hi
    · rw [hn.inFlight] at hi
      cases hi
  · intro t ht id hi
    obtain ⟨r,hr,he⟩ := h.children t ht id hi
    exact ⟨r,hmem.mpr (.inl hr),he⟩
  · intro q hq
    rcases hmem.mp hq with hq | rfl
    · exact h.owned q hq
    · exact .inl (by rw [hid])

theorem Coherent.move (h : w.Coherent) {σ : Setting} {m : Move} (hm : w.move? σ m = some w') :
    w'.Coherent := by
  rcases move_cases hm with ⟨r,hr,-,hturn⟩ | ⟨t,ht,-,hs⟩ | ⟨-,⟨n,rfl⟩ | ⟨millis,rfl⟩⟩
  · exact h.runTurn hr hturn
  · exact h.turn ht (stepTask_turn (h.task t ht).node (h.task t ht).phase hs)
  · exact h.cancel n
  · exact ⟨h.runs_nodup,h.tasks_nodup,h.run,h.task,h.home,h.carried,h.children,h.owned⟩

end World

theorem Step.coherent {turn : Option Nat} (hs : Step e turn w w') (h : w.Coherent) :
    w'.Coherent := by
  cases hs with
  | start hk hfree hstart =>
    obtain ⟨graph,run,hb,hn,hid,ha,-⟩ := start_spec hstart
    have hg : graph.Neat := fun _ hc => (Definition.sound_of_build hb hk hc).nodup
    exact (h.start hn hg hid hfree).of_alike ha
  | move hm => exact h.move hm
  | agenda ready plans => exact h.of_alike ⟨rfl,rfl,rfl,rfl,rfl⟩

theorem Reaches.coherent (hr : Reaches e w) : w.Coherent := by
  induction hr with
  | world =>
    refine ⟨.nil,.nil,?_,?_,?_,?_,?_,?_⟩
    all_goals
      intro x hx
      cases hx
  | step _ hs ih => exact hs.coherent ih

/-- Moves alone lead no further. -/
theorem Reaches.reachable (h : Reaches e w) (hr : World.Reachable e.setting w w') :
    Reaches e w' := by
  induction hr with
  | start => exact h
  | move m _ hm ih => exact ih.step (.move hm)

end Engine

end TaskGraph
