import TaskGraph.Proofs.Engine.Guarding
import TaskGraph.Proofs.Engine.Views

/-!
The attempts of a loop. Before every turn the condition is decided, on the number of turns so far and the
last output; an attempt ends when the condition is false or cannot be decided, when a body fails, or when
the condition is true once more after as many turns as are allowed.
-/

namespace TaskGraph

/-- What a loop and its body see after some turns, of which the outputs are given. -/
def Scope.forTurn (s : Scope) (outputs : List Value) : Scope :=
  (s.bind "iteration" (.int outputs.length)).bind "last" (outputs.getLast?.getD .null)

theorem Scope.forTurn_sees (s : Scope) (outputs : List Value) :
    (s.forTurn outputs).binding? "iteration" = some (.int outputs.length) ∧
      (s.forTurn outputs).binding? "last" = some (outputs.getLast?.getD .null) := by
  refine ⟨?_,Fields.get?_insert_self "last" _ _⟩
  rw [forTurn,binding?_bind_of_ne _ (by decide)]
  exact Fields.get?_insert_self "iteration" _ s.bindings

/-- What a loop gives after its last turn. -/
def Attempt.looped (outputs : List Value) : Completed where
  value := .ofPairs [("iterations",.int outputs.length),("outputs",.array outputs)]

namespace Engine

/-- What the condition of a loop says after some turns. -/
def proceeds (σ : Setting) (s : Scope) (condition : Value) (outputs : List Value) :
    Except Template.ConditionFault Bool :=
  Template.evaluate σ.surroundings (s.forTurn outputs).value condition

section Attempts

variable (σ : Setting) (n : GraphNode Graph) (s : Scope) (condition : Value) (cap : Nat)
  (body : Graph) (start : Moment)

/-- The body starts for another turn. -/
def opening (outputs : List Value) (run : RunId) (m : Moment) : Line :=
  ⟨m,.opens (.turn outputs) run (some (.start body (s.forTurn outputs)))⟩

/-- Turns that an attempt has completed, by the results of their bodies, and when the last was over. -/
inductive Turns : List RunResult → List Line → Moment → Prop
  | none : Turns [] [] start
  | more {results : List RunResult} {inner : List Line} {m m' : Moment} {run : RunId} {r : RunResult} :
    Turns results inner m → proceeds σ s condition (results.map RunResult.output) = .ok true →
    results.length < cap → r.status = .success →
    Turns (results ++ [r]) (inner ++ [opening s body (results.map RunResult.output) run m,
      ⟨m',.closes run r⟩]) m'

/-- An attempt whose body runs, after some complete turns. -/
inductive Turning : List RunResult → RunId → List Line → Prop
  | body {results : List RunResult} {inner : List Line} {m : Moment} {run : RunId} :
    Turns σ s condition cap body start results inner m →
    proceeds σ s condition (results.map RunResult.output) = .ok true → results.length < cap →
    Turning results run (inner ++ [opening s body (results.map RunResult.output) run m])

/-- What an attempt has come to. -/
inductive Looped : List Line → Moment → Outcome → Prop
  | done {results : List RunResult} {inner : List Line} {m : Moment} :
    Turns σ s condition cap body start results inner m →
    proceeds σ s condition (results.map RunResult.output) = .ok false →
    Looped inner m (.ok (Attempt.looped (results.map RunResult.output)))
  | capped {results : List RunResult} {inner : List Line} {m : Moment} :
    Turns σ s condition cap body start results inner m →
    proceeds σ s condition (results.map RunResult.output) = .ok true → cap ≤ results.length →
    Looped inner m (.error (.loopCapExceeded cap))
  | undecided {results : List RunResult} {inner : List Line} {m : Moment}
    {fault : Template.ConditionFault} {f : Failure} :
    Turns σ s condition cap body start results inner m →
    proceeds σ s condition (results.map RunResult.output) = .error fault →
    Task.Stop.ofCondition fault = .failed f → Looped inner m (.error f)
  | failed {results : List RunResult} {inner : List Line} {m : Moment} {run : RunId} {r : RunResult} :
    Turning σ s condition cap body start results run inner → r.status = .failed →
    Looped (inner ++ [⟨m,.closes run r⟩]) m (.error r.failure)
  | bodyCancelled {results : List RunResult} {inner : List Line} {m : Moment} {run : RunId}
    {r : RunResult} :
    Turning σ s condition cap body start results run inner → r.status = .cancelled →
    Looped (inner ++ [⟨m,.closes run r⟩]) m (.error .cancelled)
  | cancelled {results : List RunResult} {inner : List Line} {m : Moment} :
    Turns σ s condition cap body start results inner m → m.cancelled = true →
    Looped inner m (.error .cancelled)
  | late {results : List RunResult} {inner : List Line} {m : Moment} {run : RunId} {d : Duration} :
    Turning σ s condition cap body start results run inner → n.timeout = some d →
    start.time+d.wait ≤ m.time → Looped inner m (.error (.timeout d))

/-- What is told of the attempts of a loop. They break down only over the condition. -/
def Account.looping : Account where
  upto k start inner phase := ∃ limit results run,
    phase = .nesting k limit (.turn (results.map RunResult.output) run) ∧
    limit.map Timer.time = n.timeout.map (fun d => start.time+d.wait) ∧
    Turning σ s condition cap body start results run inner
  whole _ start inner finish outcome := Looped σ n s condition cap body start inner finish outcome
  breaks := ∃ start results inner m fault message,
    Turns σ s condition cap body start results inner m ∧
    proceeds σ s condition (results.map RunResult.output) = .error fault ∧
    Task.Stop.ofCondition fault = .collapsed message

end Attempts

/-- What is told of the attempts of loops, and nothing of others. -/
def Account.looped (σ : Setting) (n : GraphNode Graph) (s : Scope) : Account :=
  match n.kind with
  | .loop condition cap body => .looping σ n s condition cap body
  | _ => silent

section Holds

variable {σ : Setting} {w : World} {t : Task} {k cap : Nat} {condition : Value} {body : Graph}
  {start m : Moment} {results : List RunResult} {inner : List Line} {run : RunId}

theorem Phase.openings_turn (hk : t.node.kind = .loop condition cap body) (limit : Option Timer)
    (outputs : List Value) (run : RunId) (m : Moment) :
    ((Phase.nesting k limit (.turn outputs run)).openings t.node t.scope).map (Line.mk m) =
      [opening t.scope body outputs run m] := by
  rw [openings,parts,List.map_singleton,Part.start?_turn hk]
  rfl

/-- After some turns the condition decides how the attempt goes on. -/
theorem Turns.turned (hk : t.node.kind = .loop condition cap body)
    (h : Turns σ t.scope condition cap body start results inner m) {limit : Option Timer}
    (hl : limit.map Timer.time = t.node.timeout.map fun d => start.time+d.wait) :
    (Account.looping σ t.node t.scope condition cap body).Follows t.node t.scope k start inner m
      (t.turned m k σ limit condition cap (results.map RunResult.output)) := by
  have hp : Template.evaluate σ.surroundings (t.turnScope (results.map RunResult.output)).value
      condition = proceeds σ t.scope condition (results.map RunResult.output) := rfl
  unfold Task.turned
  rw [hp]
  split
  · next hc => exact .cancelled h hc
  split
  · next fault hfault =>
    cases hs : Task.Stop.ofCondition fault with
    | failed f => exact .undecided h hfault hs
    | collapsed message => exact ⟨start,results,inner,m,fault,message,h,hfault,hs⟩
  · next holds hholds =>
    cases holds with
    | false => exact .done h hholds
    | true =>
      rw [Attempt.turn,List.length_map]
      by_cases hcap : cap ≤ results.length
      · rw [if_pos hcap]
        exact .capped h hholds hcap
      · rw [if_neg hcap]
        refine ⟨limit,results,_,rfl,hl,?_⟩
        rw [Phase.openings_turn hk]
        exact .body h hholds (Nat.lt_of_not_le hcap)

/-- The body is over. -/
theorem Turning.turnDone (hk : t.node.kind = .loop condition cap body)
    (h : Turning σ t.scope condition cap body start results run inner) {limit : Option Timer}
    (hl : limit.map Timer.time = t.node.timeout.map fun d => start.time+d.wait) (m : Moment)
    (r : RunResult) : (Account.looping σ t.node t.scope condition cap body).Follows t.node t.scope k
      start (inner ++ [⟨m,.closes run r⟩]) m
      (t.turnDone m k σ limit (results.map RunResult.output) r.handed) := by
  obtain ⟨hs,hh⟩ | ⟨hs,hh⟩ | ⟨hs,hh⟩ := r.handed_cases
  · cases h with
    | @body earlier before _ hturns hp hlt =>
      have hmore : Turns σ t.scope condition cap body start (results ++ [r]) (earlier ++
          [opening t.scope body (results.map RunResult.output) run before,⟨m,.closes run r⟩]) m :=
        .more hturns hp hlt hs
      have hfollows := hmore.turned (k := k) hk hl
      rw [List.map_append,List.map_singleton] at hfollows
      rw [hh,List.append_assoc]
      simp only [Task.turnDone,hk]
      exact hfollows
  · rw [hh]
    exact .bodyCancelled h hs
  · rw [hh]
    exact .failed h hs

theorem Account.looped_holds (σ : Setting) (n : GraphNode Graph) (s : Scope) :
    (Account.looped σ n s).Holds σ n s := by
  cases hk : n.kind with
  | loop condition cap body =>
    constructor
    · rintro w t k rfl rfl
      rw [World.beginning,hk,Account.looped,hk]
      exact Turns.turned hk .none (w.startLimit_time t)
    · rintro w t k start inner notes p rfl rfl hupto hstart hp
      rw [Account.looped,hk] at hupto ⊢
      obtain ⟨limit,results,run,hphase,hl,hturning⟩ := hupto
      obtain ⟨-,⟨hq,rfl⟩ | ⟨hpassed,rfl,rfl⟩⟩ := World.progress?_nesting hphase hp
      · obtain ⟨r,hr,he⟩ := Option.bind_eq_some_iff.mp hq
        cases he
        rw [show w.closings (Stage.turn _ _).runs = _ from World.closings_one hr]
        exact hturning.turnDone hk hl _ r
      · obtain ⟨d,hd,he,hle⟩ := World.late_of_limit hl hpassed
        rw [he,List.map_nil,List.append_nil]
        exact .late hturning hd hle
  | _ =>
    rw [Account.looped,hk]
    exact silent_holds σ n s

end Holds

end Engine

end TaskGraph
