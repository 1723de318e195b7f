import TaskGraph.Failure.Wire
import TaskGraph.Proofs.Data.Json.Reading
import TaskGraph.Proofs.Time.Duration

/-!
A failure is read from its written form, however deep other failures lie in it.
-/

namespace TaskGraph

theorem Value.height_lt_of_field {v w : Value} {name : String} (h : v.field? name = some w) :
    w.height < v.height := by
  cases v with
  | object fields =>
    have hle := height_le_heightFields (Fields.mem_of_get? h)
    rw [height]
    exact Nat.lt_succ_of_le hle
  | _ => cases h

theorem Value.asStrings?_ofStrings (names : List String) :
    (ofStrings names).asStrings? = some names := by
  have hmap : (names.map Value.string).mapM asString? = some names := by
    induction names with
    | nil => rfl
    | cons name rest ih => simp [List.mapM_cons,asString?,ih]
  exact hmap

theorem Value.asUnsigned?_ofNat {n : Nat} (h : n < Nat.pow 2 64) :
    (Value.int n).asUnsigned? = some n := if_pos h

theorem Value.asNat?_ofNat {n most : Nat} (h : n < Nat.pow 2 64) (hn : n ≤ most) :
    (Value.int n).asNat? most = some n := by
  rw [asNat?,asUnsigned?_ofNat h]
  exact if_pos hn

/-- The tag of a tagged object, unless a part bears its name. -/
@[simp] theorem Value.tag?_tagged (tag name : String) (parts : List (String × Value)) :
    (tagged tag name parts).tag? tag =
      some ((parts.reverse.lookup tag).getD (.string name),tagged tag name parts) := by
  simp [tagged,ofPairs,tag?,Fields.get?_ofList,List.lookup_append]

theorem Value.parts?_tagged (names : List String) (tag name : String)
    (parts : List (String × Value)) : (tagged tag name parts).parts? names =
      some (names.map fun part => ((tag,.string name)::parts).reverse.lookup part) := by
  simp [tagged,ofPairs,parts?,Fields.get?_ofList]

@[simp] theorem Value.part?_tagged (part tag name : String) (parts : List (String × Value)) :
    (tagged tag name parts).part? part = ((tag,.string name)::parts).reverse.lookup part := by
  rw [part?,parts?_tagged]
  cases h : ((tag,Value.string name)::parts).reverse.lookup part <;> simp only [List.map_cons,h] <;> rfl

@[simp] theorem Value.pair?_tagged (a b tag name : String) (parts : List (String × Value)) :
    (tagged tag name parts).pair? a b =
      (((tag,Value.string name)::parts).reverse.lookup a).bind fun x =>
        (((tag,Value.string name)::parts).reverse.lookup b).map fun y => (x,y) := by
  rw [pair?,parts?_tagged]
  cases ha : ((tag,Value.string name)::parts).reverse.lookup a <;>
    cases hb : ((tag,Value.string name)::parts).reverse.lookup b <;>
    simp only [List.map_cons,ha,hb] <;> rfl

@[simp] theorem Value.asArray?_tagged (tag name : String) (parts : List (String × Value)) :
    (tagged tag name parts).asArray? = none := rfl

theorem Value.height_lt_of_pairs {pairs : List (String × Value)} (part : String) {v : Value}
    (h : pairs.reverse.lookup part = some v) : v.height < (ofPairs pairs).height :=
  @height_lt_of_field _ _ part (by rw [ofPairs,field?,Fields.get?_ofList,h])

namespace Failure

/-- The numbers of a failure lie within their types, and the items that failed are values of some
kind. -/
inductive Fits (item : Value → Prop) : Failure → Prop
  | execution (action message : String) : Fits item (.execution action message)
  | render (message : String) : Fits item (.render message)
  | invalidInput (message : String) : Fits item (.invalidInput message)
  | timeout {limit : Duration} (h : limit.secs < Nat.pow 2 64) : Fits item (.timeout limit)
  | aggregate {total : Nat} {failures : List (ItemFailure Failure)} (ht : total < Nat.pow 2 64)
    (hi : ∀ i ∈ failures, i.index < Nat.pow 2 64 ∧ item i.item)
    (hf : ∀ i ∈ failures, Fits item i.failure) : Fits item (.aggregate total failures)
  | step (name : String) {source : Failure} (h : Fits item source) : Fits item (.step name source)
  | incomplete (terminal : List String) : Fits item (.incomplete terminal)
  | loopCapExceeded {cap : Nat} (h : cap < Nat.pow 2 32) : Fits item (.loopCapExceeded cap)
  | recovery {body source : Failure} (hb : Fits item body) (h : Fits item source) :
    Fits item (.recovery body source)
  | always {source : Failure} (h : Fits item source) : Fits item (.always source)
  | internal (message : String) : Fits item (.internal message)
  | cancelled : Fits item .cancelled

theorem itemValues_eq (failures : List (ItemFailure Failure)) :
    itemValues failures = failures.map fun i => Value.ofPairs
      [("index",.int i.index),("item",i.item),("error",i.failure.toValue)] := by
  induction failures with
  | nil => rfl
  | cons i rest ih => rw [itemValues,ih,List.map_cons]

theorem toValue_ne_null (f : Failure) : f.toValue ≠ .null := by
  cases f <;> simp [toValue,Value.tagged,Value.ofPairs]

/-- An item of a fan-out is read if its failure is. -/
theorem ofItem?_ofPairs {read : Value → Option Failure} {i : ItemFailure Failure}
    (hindex : i.index < Nat.pow 2 64) (hread : read i.failure.toValue = some i.failure) :
    ofItem? read (Value.ofPairs [("index",.int i.index),("item",i.item),
      ("error",i.failure.toValue)]) = some i := by
  simp [ofItem?,Value.ofPairs,Value.parts?,Fields.get?_ofList,List.lookup_cons,
    Value.asUnsigned?_ofNat hindex,hread]

theorem mapM_ofItem? {read : Value → Option Failure} {failures : List (ItemFailure Failure)}
    (h : ∀ i ∈ failures, i.index < Nat.pow 2 64 ∧ read i.failure.toValue = some i.failure) :
    (itemValues failures).mapM (ofItem? read) = some failures := by
  rw [itemValues_eq]
  induction failures with
  | nil => rfl
  | cons i rest ih =>
    obtain ⟨hindex,hread⟩ := h i List.mem_cons_self
    have hrest := ih fun j hj => h j (List.mem_cons_of_mem i hj)
    rw [List.map_cons,List.mapM_cons,ofItem?_ofPairs hindex hread,hrest]
    rfl

theorem height_lt_of_item {failures : List (ItemFailure Failure)} {i : ItemFailure Failure}
    (h : i ∈ failures) (total : Nat) :
    i.failure.toValue.height < (aggregate total failures).toValue.height := by
  have hitem : i.failure.toValue.height < (Value.ofPairs [("index",.int i.index),("item",i.item),
      ("error",i.failure.toValue)]).height := Value.height_lt_of_pairs "error" (by rfl)
  have hlist : (Value.array (itemValues failures)).height <
      (aggregate total failures).toValue.height :=
    Value.height_lt_of_pairs "failures" (by rfl)
  have hmem := Value.height_le_heightItems (List.mem_map_of_mem (f := fun i => Value.ofPairs
    [("index",Value.int i.index),("item",i.item),("error",i.failure.toValue)]) h)
  rw [← itemValues_eq] at hmem
  rw [Value.height] at hlist
  omega

/-- A tagged object is read as a failure of the kind that its tag names. -/
theorem ofValueWithin?_tagged {counted : Bool} {n : Nat} {name : String}
    {parts : List (String × Value)} (hname : kindNames.contains name = true)
    (hparts : parts.reverse.lookup "kind" = none) :
    ofValueWithin? counted (n+1) (.tagged "kind" name parts) =
      ofParts? (ofValueWithin? true n) (.tagged "kind" name parts) name := by
  have hkind : kindOf? counted (.string name) = some name := if_pos hname
  rw [ofValueWithin?,Value.tag?_tagged,hparts]
  simp only [Option.getD_none,Option.bind_eq_bind,Option.bind_some,hkind]

/-- A failure is read within as many levels as it needs. -/
theorem ofValueWithin?_toValue {item : Value → Prop} {f : Failure} (h : f.Fits item)
    {counted : Bool} {n : Nat} (hn : f.toValue.height < n) :
    ofValueWithin? counted n f.toValue = some f := by
  induction h generalizing counted n with
  | timeout h =>
    obtain ⟨n,rfl⟩ : ∃ m, n = m+1 := ⟨n-1,by omega⟩
    rw [toValue,ofValueWithin?_tagged (by decide) rfl]
    simp [ofParts?,Value.asString?,Duration.parse?_spoken h]
  | @loopCapExceeded cap h =>
    obtain ⟨n,rfl⟩ : ∃ m, n = m+1 := ⟨n-1,by omega⟩
    have hcap : (Value.int cap).asNat? (Nat.pow 2 32-1) = some cap :=
      Value.asNat?_ofNat (Nat.lt_of_lt_of_le h (by decide)) (Nat.le_pred_of_lt h)
    rw [toValue,ofValueWithin?_tagged (by decide) rfl]
    simp [ofParts?,hcap]
  | @aggregate total failures ht hi hf ih =>
    obtain ⟨n,rfl⟩ : ∃ m, n = m+1 := ⟨n-1,by omega⟩
    have hitems : (itemValues failures).mapM (ofItem? (ofValueWithin? true n)) = some failures :=
      mapM_ofItem? fun i hmem => ⟨(hi i hmem).1,ih i hmem (by
        have hlt := height_lt_of_item hmem total
        omega)⟩
    rw [toValue,ofValueWithin?_tagged (by decide) rfl]
    simp [ofParts?,List.lookup_cons,Value.asArray?,Value.asUnsigned?_ofNat ht,hitems]
  | @step name source _ ih =>
    obtain ⟨n,rfl⟩ : ∃ m, n = m+1 := ⟨n-1,by omega⟩
    have hlt : source.toValue.height < (step name source).toValue.height :=
      Value.height_lt_of_pairs "source" (by rfl)
    have hsource := @ih true n (by omega)
    rw [toValue,ofValueWithin?_tagged (by decide) rfl]
    simp [ofParts?,List.lookup_cons,Value.asString?,hsource]
  | @recovery body source _ _ ihb ih =>
    obtain ⟨n,rfl⟩ : ∃ m, n = m+1 := ⟨n-1,by omega⟩
    have hltb : body.toValue.height < (recovery body source).toValue.height :=
      Value.height_lt_of_pairs "body" (by rfl)
    have hlt : source.toValue.height < (recovery body source).toValue.height :=
      Value.height_lt_of_pairs "source" (by rfl)
    have hbody := @ihb true n (by omega)
    have hsource := @ih true n (by omega)
    rw [toValue,ofValueWithin?_tagged (by decide) rfl]
    simp [ofParts?,List.lookup_cons,hbody,hsource]
  | @always source _ ih =>
    obtain ⟨n,rfl⟩ : ∃ m, n = m+1 := ⟨n-1,by omega⟩
    have hlt : source.toValue.height < (always source).toValue.height :=
      Value.height_lt_of_pairs "source" (by rfl)
    have hsource := @ih true n (by omega)
    rw [toValue,ofValueWithin?_tagged (by decide) rfl]
    simp [ofParts?,hsource]
  | _ =>
    obtain ⟨n,rfl⟩ : ∃ m, n = m+1 := ⟨n-1,by omega⟩
    rw [toValue,ofValueWithin?_tagged (by decide) rfl]
    simp [ofParts?,List.lookup_cons,Value.asString?,Value.asStrings?_ofStrings]

theorem ofValue?_toValue {item : Value → Prop} {f : Failure} (h : f.Fits item) :
    ofValue? f.toValue = some f := ofValueWithin?_toValue h (Nat.lt_succ_self _)

theorem isWord_ofNat {n : Nat} (h : n < Nat.pow 2 64) : Json.isWord (.int n) := by
  have h64 : Nat.pow 2 64 = 18446744073709551616 := rfl
  have h63 : Nat.pow 2 63 = 9223372036854775808 := rfl
  constructor <;> omega

/-- The written form of a failure has texts and whole numbers only, if its items have. -/
theorem toValue_tidy {item : Value → Prop} (hitem : ∀ v, item v → v.Tidy Json.isWord) {f : Failure}
    (h : f.Fits item) : f.toValue.Tidy Json.isWord := by
  induction h with
  | execution | render | invalidInput | timeout | internal | cancelled =>
    exact .ofPairs (by simp [Value.Tidy.string])
  | incomplete terminal => exact .ofPairs (by simp [Value.Tidy.string,Value.Tidy.ofStrings])
  | loopCapExceeded h =>
    have hcap := isWord_ofNat (Nat.lt_of_lt_of_le h (by decide))
    exact .ofPairs (by simp [Value.Tidy.string,Value.Tidy.int hcap])
  | step name _ ih => exact .ofPairs (by simp [Value.Tidy.string,ih])
  | recovery _ _ ihb ih => exact .ofPairs (by simp [Value.Tidy.string,ihb,ih])
  | always _ ih => exact .ofPairs (by simp [Value.Tidy.string,ih])
  | @aggregate total failures ht hi hf ih =>
    have hitems : (Value.array (itemValues failures)).Tidy Json.isWord := by
      refine .array fun v hv => ?_
      rw [itemValues_eq] at hv
      obtain ⟨i,hmem,rfl⟩ := List.mem_map.mp hv
      have hindex := Value.Tidy.int (isWord_ofNat (hi i hmem).1)
      exact .ofPairs (by simp [hindex,hitem _ (hi i hmem).2,ih i hmem])
    exact .ofPairs (by simp [Value.Tidy.string,Value.Tidy.int (isWord_ofNat ht),hitems])

end Failure

end TaskGraph
