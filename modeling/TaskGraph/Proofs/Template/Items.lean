import TaskGraph.Engine.Task
import TaskGraph.Proofs.Data.Json.Reading
import TaskGraph.Proofs.Template.Naming

/-!
Items by way of their text. A fan-out whose items are given as the data text of a named list, rendered
by a template, works on the members of that list as they are: none is escaped or rendered again.
-/

namespace TaskGraph

section Trimming

variable {cs : List Char}

theorem Text.trim_of_ends {s : String} {c d : Char} {after before : List Char}
    (hstart : s.toList = c::after) (hend : s.toList = before ++ [d]) (hc : isBlank c = false)
    (hd : isBlank d = false) : trim s = s := by
  have htrim : trimStart s.toList = s.toList := by
    rw [hstart]
    simp [trimStart,hc]
  rw [trim,htrim,hend,trimEnd,List.reverse_append,List.reverse_singleton,List.singleton_append,
    List.dropWhile_cons_of_neg (by simp [hd]),List.reverse_cons,List.reverse_reverse,← hend,
    String.ofList_toList]

end Trimming

namespace Json

theorem itemChars_eq_append (items : List Value) : ∃ before, itemChars items = before ++ [']'] := by
  induction items with
  | nil => exact ⟨[],rfl⟩
  | cons v vs ih =>
    cases vs with
    | nil => exact ⟨chars v,rfl⟩
    | cons w ws =>
      obtain ⟨before,hb⟩ := ih
      refine ⟨chars v ++ ','::before,?_⟩
      rw [itemChars,hb]
      · simp
      · simp

/-- The text of a list has brackets at its ends. -/
theorem trim_text_array (items : List Value) :
    Text.trim (text (.array items)) = text (.array items) := by
  obtain ⟨before,hb⟩ := itemChars_eq_append items
  have htext : (text (.array items)).toList = '['::itemChars items := by
    rw [text,String.toList_ofList,chars]
  have hend : (text (.array items)).toList = ('['::before) ++ [']'] := by
    rw [htext,hb]
    rfl
  exact Text.trim_of_ends htext hend rfl rfl

end Json

namespace Attempt

/-- The text of a list of items is as good as the list. -/
theorem items_text {list : List Value} (h : (Value.array list).Tidy Json.isWord)
    (hheight : (Value.array list).height < Json.depthLimit) :
    items (.string (Json.text (.array list))) = .ok list := by
  rw [items,Json.trim_text_array,Json.parse_text h hheight]

end Attempt

theorem Scope.field?_value {scope : Scope} {name : String} (h : name ≠ "results") :
    scope.value.field? name = scope.binding? name :=
  Fields.get?_insert_of_ne h _ _

namespace Engine.World

/-- A fan-out whose items are known: a run starts for each of them, in order. -/
def fanOut (w : World) (t : Task) (attempt : Nat) (binding : String) (template : Graph) :
    List Value → World
  | [] => w.afterAttempt t attempt (Attempt.collect (w.isCancelled t.id.run) [])
  | items =>
    let (w,limit) := w.startLimit t
    let (w,t,runs) := w.nestItems t binding template 0 items
    w.nesting t attempt limit (.fanOut runs)

theorem beginAttempt_fanOut {σ : Setting} {t : Task} {list v : Value} {items : List Value}
    {binding : String} {template : Graph} (hk : t.node.kind = .forEach list binding template)
    (hv : Template.renderValue σ.surroundings t.scope.value list = .ok v)
    (hi : Attempt.items v = .ok items) (w : World) (attempt : Nat) :
    w.beginAttempt σ t attempt = w.fanOut t attempt binding template items := by
  have hitems : (do
      let v ← (Template.renderValue σ.surroundings t.scope.value list).mapError Task.Stop.ofTemplate
      (Attempt.items v).mapError Task.Stop.failed) = .ok items := by
    rw [hv]
    show (Attempt.items v).mapError Task.Stop.failed = _
    rw [hi]
    rfl
  unfold beginAttempt
  rw [hk]
  dsimp only
  rw [hitems]
  cases items <;> rfl

end Engine.World

namespace Template

theorem renderValue_jsonTag {name : String} (h : isPlain name = true) (world : Surroundings)
    {root v : Value} (hv : root.field? name = some v) :
    renderValue world root (.string (jsonTag name)) = .ok (.string (Json.text v)) := by
  rw [renderValue,renderString_jsonTag h world hv]
  rfl

namespace Visits

/-- Hosts with what could be taken for a mark of a text, of a template or of a page. -/
def hosts : List Value :=
  [.string "a \"b\" \\ \n \x7b\x7bc\x7d\x7d <d>&",.array [.int (-3),.null],
    .object [("e",.string "\x7d\x7d"),("f",.bool true)]]

theorem hosts_tidy : (Value.array hosts).Tidy Json.isWord := by
  refine .array fun v hv => ?_
  simp only [hosts,List.mem_cons,List.not_mem_nil,or_false] at hv
  rcases hv with rfl | rfl | rfl
  · exact .string _
  · refine .array fun v hv => ?_
    simp only [List.mem_cons,List.not_mem_nil,or_false] at hv
    rcases hv with rfl | rfl
    · exact .int ⟨by decide,by decide⟩
    · exact .null
  · refine .object (List.pairwise_pair.mpr (by decide)) fun p hp => ?_
    simp only [List.mem_cons,List.not_mem_nil,or_false] at hp
    rcases hp with rfl | rfl
    · exact .string _
    · exact .bool _

abbrev scope : Scope := ({} : Scope).bind "hosts" (.array hosts)

/-- A visit to each of the hosts. -/
def task : Engine.Task where
  id := ⟨⟨0,[]⟩,"visits"⟩
  node := {
    id := "visits"
    description := none
    dependency := none
    tags := .ofList []
    retry := .once
    timeout := none
    handler := none
    kind := .forEach (.string (jsonTag "hosts")) "host" ⟨[],[]⟩ }
  scope := scope
  path := ""
  held := .ofList []

end Visits

end Template

end TaskGraph
