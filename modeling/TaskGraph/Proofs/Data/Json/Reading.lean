import TaskGraph.Data.Json.Pretty
import TaskGraph.Data.Json.Reader
import TaskGraph.Proofs.Data.Ordered
import TaskGraph.Proofs.Text.Digits

/-!
Data texts are read as what was written, on one line or over several.
-/

namespace TaskGraph.Json

section Strings

theorem hexValue_hexDigit : ∀ n < 16, hexValue (hexDigit n) = some n := by decide

theorem hexDigit_utf8Size : ∀ n < 16, (hexDigit n).utf8Size = 1 := by decide

theorem escapeSequence_hexDigits {n : Nat} (h : n < 32) (rest : List Char) :
    escapeSequence ('u' :: '0' :: '0' :: hexDigit (n/16)::hexDigit (n%16)::rest) =
      .ok (Char.ofNat n,rest) := by
  have hhigh : n/16 < 16 := by omega
  have hlow : n%16 < 16 := by omega
  have hafter : afterBytes 4 ('0' :: '0' :: hexDigit (n/16)::hexDigit (n%16)::rest) = some (0,rest) := by
    have hzero : '0'.utf8Size = 1 := rfl
    simp [afterBytes,hzero,hexDigit_utf8Size _ hhigh,hexDigit_utf8Size _ hlow]
  have hvalues : ['0','0',hexDigit (n/16),hexDigit (n%16)].mapM hexValue =
      some [0,0,n/16,n%16] := by
    have hzero : hexValue '0' = some 0 := rfl
    simp [hzero,hexValue_hexDigit _ hhigh,hexValue_hexDigit _ hlow]
  have hunit : hexEscape ('0' :: '0' :: hexDigit (n/16)::hexDigit (n%16)::rest) = .ok (n,rest) := by
    have hn : n/16*16+n%16 = n := by omega
    simp [hexEscape,hafter,hvalues,hn]
  have hlarge : ¬(0xDC00 ≤ n ∧ n ≤ 0xDFFF) ∧ ¬(0xD800 ≤ n ∧ n ≤ 0xDBFF) := by omega
  rw [escapeSequence,unicodeEscape,hunit]
  simp only [bind,Except.bind,hlarge.1,hlarge.2,if_false]

/-- A character is read from its escaped form in one step. -/
theorem stringTail_escape (c : Char) (fuel : Nat) (done rest : List Char) :
    stringTail (fuel+1) done (escape c ++ rest) = stringTail fuel (c::done) rest := by
  have hescaped {s rest : List Char} (hs : escapeSequence s = .ok (c,rest)) :
      stringTail (fuel+1) done ('\\'::s) = stringTail fuel (c::done) rest := by
    rw [stringTail,if_neg (by decide),if_pos rfl,hs]
    rfl
  have hnat (n : Nat) (hn : c.toNat = n) : c = Char.ofNat n := by rw [← hn,Char.ofNat_toNat]
  unfold escape
  split
  · next hc => exact hescaped (by rw [hc]; rfl)
  split
  · next hc => exact hescaped (by rw [hc]; rfl)
  split
  · next hc => exact hescaped (by rw [hc]; rfl)
  split
  · next hc => exact hescaped (by rw [hc]; rfl)
  split
  · next hc => exact hescaped (by rw [hc]; rfl)
  split
  · next hc => exact hescaped (by rw [hnat 8 hc]; rfl)
  split
  · next hc => exact hescaped (by rw [hnat 12 hc]; rfl)
  split
  · next hc =>
    refine hescaped (s := 'u' :: '0' :: '0' :: hexDigit (c.toNat/16)::hexDigit (c.toNat%16)::rest) ?_
    rw [escapeSequence_hexDigits hc,Char.ofNat_toNat]
  · next hquote hback _ _ _ _ _ hcontrol =>
    rw [List.singleton_append,stringTail,if_neg hquote,if_neg hback,if_neg hcontrol]

theorem stringTail_escaped {s : List Char} {fuel : Nat} (h : s.length < fuel)
    (done rest : List Char) : stringTail fuel done (s.flatMap escape ++ '"'::rest) =
      .ok (String.ofList (done.reverse ++ s),rest) := by
  induction s generalizing fuel done with
  | nil =>
    obtain ⟨fuel,rfl⟩ := Nat.exists_eq_add_of_lt h
    simp [stringTail]
  | cons c s ih =>
    obtain ⟨fuel,rfl⟩ : ∃ n, fuel = n+1 := ⟨fuel-1,by omega⟩
    have hs : s.length < fuel := by simpa using h
    rw [List.flatMap_cons,List.append_assoc,stringTail_escape,ih hs]
    simp

theorem length_le_escaped (s : List Char) : s.length ≤ (s.flatMap escape).length := by
  have hone (c : Char) : 1 ≤ (escape c).length := by
    unfold escape
    repeat' split
    all_goals simp
  induction s with
  | nil => simp
  | cons c s ih =>
    have hc := hone c
    simp only [List.flatMap_cons,List.length_append,List.length_cons]
    omega

/-- A quoted text is read after its opening quote. -/
theorem readString_quoted (s : String) (rest : List Char) :
    readString (s.toList.flatMap escape ++ '"'::rest) = .ok (s,rest) := by
  have hlen := length_le_escaped s.toList
  have hfuel : s.toList.length < (s.toList.flatMap escape ++ '"'::rest).length+1 := by
    rw [List.length_append]
    omega
  exact (stringTail_escaped hfuel [] rest).trans (by simp)

end Strings

section Numbers

/-- The numbers that a data text keeps: the integers of 64 bits, with or without a sign. -/
def isWord : Value → Prop
  | .int n => -(Nat.pow 2 63) ≤ n ∧ n < Nat.pow 2 64
  | _ => False

/-- Where a number may end. -/
def Ends (rest : List Char) : Prop :=
  ∀ c ∈ rest.head?, c.isDigit = false ∧ c ≠ '.' ∧ c ≠ 'e' ∧ c ≠ 'E'

theorem Ends.takeWhile_isDigit {rest : List Char} (h : Ends rest) :
    rest.takeWhile Char.isDigit = [] := by
  cases rest with
  | nil => rfl
  | cons c rest => simp [(h c rfl).1]

theorem Ends.dropWhile_isDigit {rest : List Char} (h : Ends rest) :
    rest.dropWhile Char.isDigit = rest := by
  cases rest with
  | nil => rfl
  | cons c rest => simp [(h c rfl).1]

theorem digits_append {ds rest : List Char} (hds : ∀ c ∈ ds, c.isDigit = true) (h : Ends rest) :
    digits (ds ++ rest) = (ds,rest) := by
  unfold digits
  rw [List.takeWhile_append_of_pos hds,List.dropWhile_append_of_pos hds,h.takeWhile_isDigit,
    h.dropWhile_isDigit,List.append_nil]

theorem significand_of_lt {ds : List Char} {start : Nat}
    (h : Text.digitsValueFrom start ds < Nat.pow 2 64) :
    significand ds start = (Text.digitsValueFrom start ds,0) := by
  induction ds generalizing start with
  | nil => rfl
  | cons c rest ih =>
    have hstep : start*10+(c.toNat-48) < Nat.pow 2 64 :=
      Nat.lt_of_le_of_lt (Text.le_digitsValueFrom _ rest) h
    have hrest := @ih (start*10+(c.toNat-48)) h
    unfold significand at hrest ⊢
    rw [List.foldl_cons]
    simp only [hstep,and_self,if_true]
    exact hrest

/-- What follows the digits of a whole number decides nothing, if a number may end there. -/
theorem whole_of_ends {rest : List Char} (h : Ends rest) (negative : Bool) (n extra : Nat) :
    unsignedNumber.whole negative n extra rest =
      if extra ≠ 0 then number negative n extra rest
      else if !negative then .ok (.int n,rest)
      else if n = 0 ∨ Nat.pow 2 63 < n then number true n 0 rest
      else .ok (.int (-n),rest) := by
  cases rest with
  | nil => rfl
  | cons c rest =>
    obtain ⟨-,hpoint,he,hE⟩ := h c rfl
    unfold unsignedNumber.whole
    split
    · next hc => exact absurd (List.cons.inj hc).1 hpoint
    · next hc => exact absurd (List.cons.inj hc).1 he
    · next hc => exact absurd (List.cons.inj hc).1 hE
    · rfl

theorem unsignedNumber_digits {n : Nat} (hn : n < Nat.pow 2 64) {rest : List Char} (h : Ends rest)
    (negative : Bool) : unsignedNumber negative (Text.digits n ++ rest) =
      unsignedNumber.whole negative n 0 rest := by
  have hdigit : ∀ c ∈ Text.digits n, c.isDigit = true := fun c => Text.isDigit_of_mem_digits
  have hvalue := Text.digitsValueFrom_digits n
  obtain ⟨d,ds,hd⟩ := List.exists_cons_of_ne_nil (Text.digits_ne_nil n)
  have hsplit : digits (d::(ds ++ rest)) = (d::ds,rest) := digits_append (hd ▸ hdigit) h
  have hsig : significand (d::ds) 0 = (n,0) := by
    have hs := @significand_of_lt (Text.digits n) 0 (by rwa [hvalue])
    rwa [hvalue,hd] at hs
  rw [hd,List.cons_append]
  unfold unsignedNumber
  split
  · next he => cases he
  · -- Only the zero has a zero in front, and then nothing but its end follows.
    next c tail he =>
    obtain ⟨rfl,htail⟩ := List.cons.inj he
    have hds := Text.digits_of_head_zero hd
    subst hds
    have hzero : n = 0 := by rw [← hvalue,hd]; rfl
    rw [List.nil_append] at htail
    subst htail
    simp [(h c rfl).1,hzero]
  · next c tail _ he =>
    obtain ⟨rfl,rfl⟩ := List.cons.inj he
    simp [hdigit d (by simp [hd]),hsplit,hsig]

end Numbers

section Blanks

theorem skipBlanks_append {gap : List Char} (h : ∀ c ∈ gap, isBlank c = true) (s : List Char) :
    skipBlanks (gap ++ s) = skipBlanks s := List.dropWhile_append_of_pos h

theorem skipBlanks_cons {c : Char} (h : isBlank c = false) (s : List Char) :
    skipBlanks (c::s) = c::s := by simp [skipBlanks,h]

theorem Ends.of_head {c : Char} (h : c = ',' ∨ c = ']' ∨ c = '\x7d' ∨ isBlank c = true)
    (rest : List Char) : Ends (c::rest) := by
  intro d hd
  obtain rfl := Option.some.inj hd
  rcases h with rfl | rfl | rfl | h
  · decide
  · decide
  · decide
  · have hblank : c = ' ' ∨ c = '\n' ∨ c = '\t' ∨ c = '\r' := by simpa [isBlank,or_assoc] using h
    rcases hblank with rfl | rfl | rfl | rfl <;> decide

end Blanks

section Parts

/-- A text starts with what is no blank and does not end a list. -/
def Starts (cs : List Char) : Prop := ∃ c tail, cs = c::tail ∧ isBlank c = false ∧ c ≠ ']'

theorem Starts.length_pos {cs : List Char} (h : Starts cs) : 0 < cs.length := by
  obtain ⟨c,tail,rfl,-⟩ := h
  exact Nat.succ_pos _

/-- A text is read as a value, whatever follows where a value may end. -/
structure Reads (v : Value) (cs : List Char) : Prop where
  starts : Starts cs
  reads : ∀ {fuel depth : Nat} {rest : List Char}, 3*cs.length ≤ fuel → v.height < depth →
    Ends rest → value fuel depth (cs ++ rest) = .ok (v,rest)

/-- The blanks inside a collection: before each part, before the closing bracket, and after a colon. -/
structure Gaps where
  before : List Char
  after : List Char
  colon : List Char
  before_blank : ∀ c ∈ before, isBlank c = true
  after_blank : ∀ c ∈ after, isBlank c = true
  colon_blank : ∀ c ∈ colon, isBlank c = true

namespace Gaps

/-- What follows a part of a collection: more parts, or its end. -/
def rest (g : Gaps) (right : Char) : List (List Char) → List Char
  | [] => g.after ++ [right]
  | part::parts => ',' :: (g.before ++ part ++ rest g right parts)

/-- What follows the opening bracket of a collection. -/
def body (g : Gaps) (right : Char) : List (List Char) → List Char
  | [] => [right]
  | part::parts => g.before ++ part ++ g.rest right parts

/-- What follows the opening quote of a field of an object, from the text of its value. -/
def fieldTail (g : Gaps) (name : String) (cs : List Char) : List Char :=
  name.toList.flatMap escape ++ '"' :: ':' :: (g.colon ++ cs)

theorem rest_ends (g : Gaps) {right : Char} (hr : right = ']' ∨ right = '\x7d')
    (parts : List (List Char)) (tail : List Char) : Ends (g.rest right parts ++ tail) := by
  cases parts with
  | nil =>
    rw [rest]
    cases hafter : g.after with
    | nil => exact Ends.of_head (.inr (hr.imp_right .inl)) _
    | cons c cs => exact Ends.of_head (.inr (.inr (.inr (g.after_blank c (by simp [hafter]))))) _
  | cons part parts => exact Ends.of_head (.inl rfl) _

end Gaps

section Steps

variable {gap : List Char} (hgap : ∀ c ∈ gap, isBlank c = true) (fuel depth : Nat)
include hgap

theorem value_blanks (s : List Char) :
    value (fuel+1) depth (gap ++ s) = value (fuel+1) depth s := by
  rw [value,value,skipBlanks_append hgap]

theorem list_end (first : Bool) (s : List Char) :
    list (fuel+1) depth first (gap ++ ']'::s) = .ok ([],s) := by
  rw [list,skipBlanks_append hgap,skipBlanks_cons (by decide)]
  rfl

theorem list_first {cs : List Char} (h : Starts cs) (s : List Char) :
    list (fuel+1) depth true (gap ++ (cs ++ s)) = item fuel depth (cs ++ s) := by
  obtain ⟨c,tail,rfl,hblank,hclose⟩ := h
  rw [list,skipBlanks_append hgap,List.cons_append,skipBlanks_cons hblank]
  simp [hclose]

theorem list_comma {cs : List Char} (h : Starts cs) (s : List Char) :
    list (fuel+1) depth false (',' :: (gap ++ (cs ++ s))) = item fuel depth (cs ++ s) := by
  obtain ⟨c,tail,rfl,hblank,hclose⟩ := h
  rw [list,skipBlanks_cons (by decide)]
  simp only [skipBlanks_append hgap,List.cons_append,skipBlanks_cons hblank]
  rw [if_neg (by decide),if_neg (by decide),if_pos trivial]
  split
  · next he => cases he
  · next he => exact absurd (List.cons.inj he).1 hclose
  · rfl

theorem object_end (first : Bool) (s : List Char) :
    object (fuel+1) depth first (gap ++ '\x7d'::s) = .ok ([],s) := by
  rw [object,skipBlanks_append hgap,skipBlanks_cons (by decide)]
  rfl

theorem object_first (s : List Char) :
    object (fuel+1) depth true (gap ++ '"'::s) = field fuel depth s := by
  rw [object,skipBlanks_append hgap,skipBlanks_cons (by decide)]
  rfl

theorem object_comma (s : List Char) :
    object (fuel+1) depth false (',' :: (gap ++ '"'::s)) = field fuel depth s := by
  rw [object,skipBlanks_cons (by decide)]
  simp only [skipBlanks_append hgap]
  rw [skipBlanks_cons (by decide)]
  rfl

end Steps

theorem item_reads {v : Value} {cs rest rest' : List Char} {vs : List Value} {fuel depth : Nat}
    (h : Reads v cs) (hfuel : 3*cs.length ≤ fuel) (hdepth : v.height < depth) (hends : Ends rest)
    (hlist : list fuel depth false rest = .ok (vs,rest')) :
    item (fuel+1) depth (cs ++ rest) = .ok (v::vs,rest') := by
  rw [item,h.reads hfuel hdepth hends]
  simp only [bind,Except.bind,hlist]

theorem field_reads (g : Gaps) (name : String) {v : Value} {cs rest rest' : List Char}
    {pairs : List (String × Value)} {fuel depth : Nat} (h : Reads v cs) (hfuel : 3*cs.length ≤ fuel)
    (hdepth : v.height < depth) (hends : Ends rest)
    (hobject : object fuel depth false rest = .ok (pairs,rest')) :
    field (fuel+1) depth (g.fieldTail name cs ++ rest) = .ok ((name,v)::pairs,rest') := by
  have hlen := h.starts.length_pos
  obtain ⟨fuel,rfl⟩ : ∃ n, fuel = n+1 := ⟨fuel-1,by omega⟩
  have hvalue : value (fuel+1) depth (g.colon ++ (cs ++ rest)) = .ok (v,rest) := by
    rw [value_blanks g.colon_blank,h.reads hfuel hdepth hends]
  have htext : g.fieldTail name cs ++ rest =
      name.toList.flatMap escape ++ '"' :: ':' :: (g.colon ++ (cs ++ rest)) := by
    simp [Gaps.fieldTail]
  rw [field,htext,readString_quoted]
  simp only [bind,Except.bind]
  rw [skipBlanks_cons (by decide)]
  simp only [hvalue,hobject]

theorem list_rest (g : Gaps) {parts : List (Value × List Char)} {fuel depth : Nat}
    (h : ∀ p ∈ parts, Reads p.1 p.2 ∧ p.1.height < depth)
    (hfuel : 3*(g.rest ']' (parts.map (·.2))).length ≤ fuel) (tail : List Char) :
    list fuel depth false (g.rest ']' (parts.map (·.2)) ++ tail) = .ok (parts.map (·.1),tail) := by
  induction parts generalizing fuel with
  | nil =>
    obtain ⟨fuel,rfl⟩ : ∃ n, fuel = n+1 := ⟨fuel-1,by simp [Gaps.rest] at hfuel; omega⟩
    rw [List.map_nil,Gaps.rest,List.append_assoc]
    exact list_end g.after_blank fuel depth false tail
  | cons p parts ih =>
    obtain ⟨hp,hdepth⟩ := h p List.mem_cons_self
    simp only [List.map_cons,Gaps.rest,List.length_cons,List.length_append] at hfuel
    obtain ⟨fuel,rfl⟩ : ∃ n, fuel = n+2 := ⟨fuel-2,by omega⟩
    have hrest := @ih fuel (fun q hq => h q (List.mem_cons_of_mem p hq)) (by omega)
    have hitem := item_reads hp (by omega) hdepth (g.rest_ends (.inl rfl) _ tail) hrest
    have hcomma := list_comma g.before_blank (fuel+1) depth hp.starts
      (g.rest ']' (parts.map (·.2)) ++ tail)
    rw [hitem] at hcomma
    simpa [Gaps.rest] using hcomma

theorem object_rest (g : Gaps) {parts : List ((String × Value) × List Char)} {fuel depth : Nat}
    (h : ∀ p ∈ parts, Reads p.1.2 p.2 ∧ p.1.2.height < depth)
    (hfuel : 3*(g.rest '\x7d' (parts.map fun p => '"'::g.fieldTail p.1.1 p.2)).length ≤ fuel)
    (tail : List Char) :
    object fuel depth false (g.rest '\x7d' (parts.map fun p => '"'::g.fieldTail p.1.1 p.2) ++ tail) =
      .ok (parts.map (·.1),tail) := by
  induction parts generalizing fuel with
  | nil =>
    obtain ⟨fuel,rfl⟩ : ∃ n, fuel = n+1 := ⟨fuel-1,by simp [Gaps.rest] at hfuel; omega⟩
    rw [List.map_nil,Gaps.rest,List.append_assoc]
    exact object_end g.after_blank fuel depth false tail
  | cons p parts ih =>
    obtain ⟨hp,hdepth⟩ := h p List.mem_cons_self
    have hlen : p.2.length ≤ (g.fieldTail p.1.1 p.2).length := by simp [Gaps.fieldTail]; omega
    simp only [List.map_cons,Gaps.rest,List.length_cons,List.length_append] at hfuel
    obtain ⟨fuel,rfl⟩ : ∃ n, fuel = n+2 := ⟨fuel-2,by omega⟩
    have hrest := @ih fuel (fun q hq => h q (List.mem_cons_of_mem p hq)) (by omega)
    have hfield := field_reads g p.1.1 hp (by omega) hdepth
      (g.rest_ends (.inr rfl) _ tail) hrest
    have hcomma := object_comma g.before_blank (fuel+1) depth (g.fieldTail p.1.1 p.2 ++
      (g.rest '\x7d' (parts.map fun p => '"'::g.fieldTail p.1.1 p.2) ++ tail))
    rw [hfield] at hcomma
    simpa [Gaps.rest] using hcomma

/-- A list is read if its items are. -/
theorem reads_array (g : Gaps) (parts : List (Value × List Char)) (h : ∀ p ∈ parts, Reads p.1 p.2) :
    Reads (.array (parts.map (·.1))) ('[' :: g.body ']' (parts.map (·.2))) where
  starts := ⟨'[',_,rfl,by decide,by decide⟩
  reads {fuel depth rest} hfuel hdepth hends := by
    rw [Value.height] at hdepth
    obtain ⟨depth,rfl⟩ : ∃ n, depth = n+2 := ⟨depth-2,by omega⟩
    have hheight : ∀ p ∈ parts, Reads p.1 p.2 ∧ p.1.height < depth+1 := by
      intro p hp
      have hle := Value.height_le_heightItems (List.mem_map_of_mem (f := (·.1)) hp)
      exact ⟨h p hp,by omega⟩
    obtain ⟨fuel,rfl⟩ : ∃ n, fuel = n+1 := ⟨fuel-1,by simp at hfuel; omega⟩
    have hlist : list fuel (depth+1) true (g.body ']' (parts.map (·.2)) ++ rest) =
        .ok (parts.map (·.1),rest) := by
      cases parts with
      | nil =>
        obtain ⟨fuel,rfl⟩ : ∃ n, fuel = n+1 := ⟨fuel-1,by simp [Gaps.body] at hfuel; omega⟩
        exact @list_end [] (by simp) fuel (depth+1) true rest
      | cons p parts =>
        obtain ⟨hp,hpdepth⟩ := hheight p List.mem_cons_self
        have hlen := hp.starts.length_pos
        simp only [List.map_cons,Gaps.body,List.length_cons,List.length_append] at hfuel
        obtain ⟨fuel,rfl⟩ : ∃ n, fuel = n+2 := ⟨fuel-2,by omega⟩
        have hrest := @list_rest g parts fuel (depth+1)
          (fun q hq => hheight q (List.mem_cons_of_mem p hq)) (by omega) rest
        have hitem := item_reads hp (by omega) hpdepth (g.rest_ends (.inl rfl) _ rest) hrest
        have hfirst := list_first g.before_blank (fuel+1) (depth+1) hp.starts
          (g.rest ']' (parts.map (·.2)) ++ rest)
        rw [hitem] at hfirst
        simpa [Gaps.body] using hfirst
    rw [List.cons_append,value,skipBlanks_cons (by decide)]
    simp only [bind,Except.bind,hlist]

/-- An object is read if its names are in order and the values of its fields are read. -/
theorem reads_object (g : Gaps) (parts : List ((String × Value) × List Char))
    (ho : Fields.Ordered (parts.map (·.1))) (h : ∀ p ∈ parts, Reads p.1.2 p.2) :
    Reads (.object (parts.map (·.1)))
      ('\x7b' :: g.body '\x7d' (parts.map fun p => '"'::g.fieldTail p.1.1 p.2)) where
  starts := ⟨'\x7b',_,rfl,by decide,by decide⟩
  reads {fuel depth rest} hfuel hdepth hends := by
    rw [Value.height] at hdepth
    obtain ⟨depth,rfl⟩ : ∃ n, depth = n+2 := ⟨depth-2,by omega⟩
    have hheight : ∀ p ∈ parts, Reads p.1.2 p.2 ∧ p.1.2.height < depth+1 := by
      intro p hp
      have hle := Value.height_le_heightFields (List.mem_map_of_mem (f := (·.1)) hp)
      exact ⟨h p hp,by omega⟩
    obtain ⟨fuel,rfl⟩ : ∃ n, fuel = n+1 := ⟨fuel-1,by simp at hfuel; omega⟩
    have hobject : object fuel (depth+1) true
        (g.body '\x7d' (parts.map fun p => '"'::g.fieldTail p.1.1 p.2) ++ rest) =
        .ok (parts.map (·.1),rest) := by
      cases parts with
      | nil =>
        obtain ⟨fuel,rfl⟩ : ∃ n, fuel = n+1 := ⟨fuel-1,by simp [Gaps.body] at hfuel; omega⟩
        exact @object_end [] (by simp) fuel (depth+1) true rest
      | cons p parts =>
        obtain ⟨hp,hpdepth⟩ := hheight p List.mem_cons_self
        have hlen : p.2.length ≤ (g.fieldTail p.1.1 p.2).length := by simp [Gaps.fieldTail]; omega
        simp only [List.map_cons,Gaps.body,List.length_cons,List.length_append] at hfuel
        obtain ⟨fuel,rfl⟩ : ∃ n, fuel = n+2 := ⟨fuel-2,by omega⟩
        have hrest := @object_rest g parts fuel (depth+1)
          (fun q hq => hheight q (List.mem_cons_of_mem p hq)) (by omega) rest
        have hfield := field_reads g p.1.1 hp (by omega) hpdepth
          (g.rest_ends (.inr rfl) _ rest) hrest
        have hfirst := object_first g.before_blank (fuel+1) (depth+1) (g.fieldTail p.1.1 p.2 ++
          (g.rest '\x7d' (parts.map fun p => '"'::g.fieldTail p.1.1 p.2) ++ rest))
        rw [hfield] at hfirst
        simpa [Gaps.body] using hfirst
    rw [List.cons_append,value,skipBlanks_cons (by decide)]
    simp only [bind,Except.bind,hobject,Value.ofPairs,Fields.ofList_of_ordered ho]

end Parts

section Scalars

theorem Reads.of_scalar {v : Value} {cs : List Char} (hstarts : Starts cs)
    (h : ∀ fuel depth rest, Ends rest → value (fuel+1) depth (cs ++ rest) = .ok (v,rest)) :
    Reads v cs where
  starts := hstarts
  reads {fuel depth rest} hfuel _ hends := by
    have hlen := hstarts.length_pos
    obtain ⟨fuel,rfl⟩ : ∃ n, fuel = n+1 := ⟨fuel-1,by omega⟩
    exact h fuel depth rest hends

theorem reads_null : Reads .null (chars .null) := by
  refine .of_scalar ⟨'n',_,rfl,by decide,by decide⟩ fun fuel depth rest _ => ?_
  rw [chars,List.cons_append,value,skipBlanks_cons (by decide)]
  rfl

theorem reads_bool (b : Bool) : Reads (.bool b) (chars (.bool b)) := by
  cases b with
  | true =>
    refine .of_scalar ⟨'t',_,rfl,by decide,by decide⟩ fun fuel depth rest _ => ?_
    rw [chars,List.cons_append,value,skipBlanks_cons (by decide)]
    rfl
  | false =>
    refine .of_scalar ⟨'f',_,rfl,by decide,by decide⟩ fun fuel depth rest _ => ?_
    rw [chars,List.cons_append,value,skipBlanks_cons (by decide)]
    rfl

theorem reads_string (s : String) : Reads (.string s) (quoted s.toList) := by
  refine .of_scalar ⟨'"',_,rfl,by decide,by decide⟩ fun fuel depth rest _ => ?_
  have htext : quoted s.toList ++ rest = '"'::(s.toList.flatMap escape ++ '"'::rest) := by
    simp [quoted]
  rw [htext,value,skipBlanks_cons (by decide)]
  simp only [readString_quoted,bind,Except.bind]

theorem isBlank_of_isDigit {c : Char} (h : c.isDigit = true) : isBlank c = false := by
  rw [Bool.eq_false_iff]
  intro hb
  have hblank : c = ' ' ∨ c = '\n' ∨ c = '\t' ∨ c = '\r' := by simpa [isBlank,or_assoc] using hb
  rcases hblank with rfl | rfl | rfl | rfl <;> exact absurd h (by decide)

theorem value_digit {c : Char} (h : c.isDigit = true) (fuel depth : Nat) (s : List Char) :
    value (fuel+1) depth (c::s) = unsignedNumber false (c::s) := by
  have hne {d : Char} {t : List Char} (hd : d.isDigit = false) : c::s ≠ d::t := by
    intro he
    rw [← (List.cons.inj he).1,h] at hd
    cases hd
  rw [value,skipBlanks_cons (isBlank_of_isDigit h)]
  split
  · next he => cases he
  · next he => exact absurd he (hne (by decide))
  · next he => exact absurd he (hne (by decide))
  · next he => exact absurd he (hne (by decide))
  · next he => exact absurd he (hne (by decide))
  · next he => exact absurd he (hne (by decide))
  · next he => exact absurd he (hne (by decide))
  · next he => exact absurd he (hne (by decide))
  · next he =>
    obtain ⟨rfl,rfl⟩ := List.cons.inj he
    rw [if_pos h]

theorem reads_int {n : Int} (h : isWord (.int n)) : Reads (.int n) (toString n).toList := by
  obtain ⟨hlow,hhigh⟩ := h
  have h63 : Nat.pow 2 63 = 9223372036854775808 := rfl
  have h64 : Nat.pow 2 64 = 18446744073709551616 := rfl
  have hnat : n.natAbs < Nat.pow 2 64 := by omega
  rw [Text.toList_toString_int]
  split
  · next hneg =>
    refine .of_scalar ⟨'-',_,rfl,by decide,by decide⟩ fun fuel depth rest hends => ?_
    have hzero : ¬(n.natAbs = 0 ∨ Nat.pow 2 63 < n.natAbs) := by omega
    have hn : -(n.natAbs : Int) = n := by omega
    rw [List.cons_append,value,skipBlanks_cons (by decide)]
    show unsignedNumber true _ = _
    rw [unsignedNumber_digits hnat hends,whole_of_ends hends,if_neg (by decide),if_neg (by decide),
      if_neg hzero,hn]
  · next hneg =>
    obtain ⟨d,ds,hd⟩ := List.exists_cons_of_ne_nil (Text.digits_ne_nil n.natAbs)
    have hdigit : d.isDigit = true := Text.isDigit_of_mem_digits (hd ▸ List.mem_cons_self)
    have hclose : d ≠ ']' := fun he => absurd hdigit (he ▸ by decide)
    refine .of_scalar ⟨d,ds,hd,isBlank_of_isDigit hdigit,hclose⟩ fun fuel depth rest hends => ?_
    have hn : (n.natAbs : Int) = n := by omega
    have hvalue := value_digit hdigit fuel depth (ds ++ rest)
    rw [← List.cons_append,← hd,unsignedNumber_digits hnat hends,whole_of_ends hends] at hvalue
    simpa [hn] using hvalue

end Scalars

section Texts

/-- No blanks at all. -/
def Gaps.compact : Gaps := ⟨[],[],[],by simp,by simp,by simp⟩

/-- Each part on a line of its own, two blanks for each level. -/
def Gaps.lined (level : Nat) : Gaps where
  before := '\n'::(indent (level+1)).toList
  after := '\n'::(indent level).toList
  colon := [' ']
  before_blank := by simp [indent,isBlank]
  after_blank := by simp [indent,isBlank]
  colon_blank := by simp [isBlank]

theorem itemChars_eq (items : List Value) :
    itemChars items = Gaps.compact.body ']' (items.map chars) := by
  have hrest (v : Value) (vs : List Value) : itemChars (v::vs) =
      chars v ++ Gaps.compact.rest ']' (vs.map chars) := by
    induction vs generalizing v with
    | nil => rfl
    | cons w vs ih =>
      rw [itemChars,ih]
      · rfl
      · simp
  cases items with
  | nil => rfl
  | cons v vs => exact hrest v vs

theorem fieldChars_eq (fields : Fields) : fieldChars fields =
    Gaps.compact.body '\x7d' (fields.map fun p => '"'::Gaps.compact.fieldTail p.1 (chars p.2)) := by
  have hfield (p : String × Value) (s : List Char) :
      quoted p.1.toList ++ ':' :: chars p.2 ++ s = '"'::Gaps.compact.fieldTail p.1 (chars p.2) ++ s := by
    simp [quoted,Gaps.fieldTail,Gaps.compact]
  have hrest (p : String × Value) (ps : Fields) : fieldChars (p::ps) =
      '"'::Gaps.compact.fieldTail p.1 (chars p.2) ++
        Gaps.compact.rest '\x7d' (ps.map fun p => '"'::Gaps.compact.fieldTail p.1 (chars p.2)) := by
    induction ps generalizing p with
    | nil => exact hfield p _
    | cons q ps ih =>
      rw [fieldChars,ih,hfield]
      · rfl
      · simp
  cases fields with
  | nil => rfl
  | cons p ps => exact hrest p ps

/-- The text on one line is read. -/
theorem reads_chars {v : Value} (h : v.Tidy isWord) : Reads v (chars v) := by
  induction h with
  | null => exact reads_null
  | bool b => exact reads_bool b
  | int h => exact reads_int h
  | float h => exact h.elim
  | string s => exact reads_string s
  | @array items _ ih =>
    have hparts := reads_array Gaps.compact (items.map fun v => (v,chars v))
      fun p hp => by obtain ⟨v,hv,rfl⟩ := List.mem_map.mp hp; exact ih v hv
    simpa [chars,itemChars_eq,Function.comp_def] using hparts
  | @object fields ho _ ih =>
    have hparts := reads_object Gaps.compact (fields.map fun p => (p,chars p.2))
      (by simpa [Function.comp_def] using ho)
      fun p hp => by obtain ⟨q,hq,rfl⟩ := List.mem_map.mp hp; exact ih q hq
    simpa [chars,fieldChars_eq,Function.comp_def] using hparts

theorem prettyItems_eq (level : Nat) (items : List Value) :
    prettyItems level items = items.map (pretty level) := by
  induction items with
  | nil => rfl
  | cons v vs ih => rw [prettyItems,ih,List.map_cons]

theorem prettyFields_eq (level : Nat) (fields : Fields) :
    prettyFields level fields = fields.map fun p => (p.1,pretty level p.2) := by
  induction fields with
  | nil => rfl
  | cons p ps ih => rw [prettyFields,ih,List.map_cons]

theorem toList_bracketed (left right : Char) (level : Nat) (parts : List String) :
    (bracketed (String.singleton left) (String.singleton right) level parts).toList =
      left :: (Gaps.lined level).body right (parts.map String.toList) := by
  have hlines (part : String) (parts : List String) :
      '\n'::([',','\n'].intercalate ((part::parts).map fun p => (indent (level+1) ++ p).toList) ++
        '\n'::((indent level).toList ++ [right])) =
      (Gaps.lined level).before ++ part.toList ++
        (Gaps.lined level).rest right (parts.map String.toList) := by
    induction parts generalizing part with
    | nil => simp [Gaps.lined,Gaps.rest]
    | cons next parts ih =>
      have hnext := ih next
      simp only [List.map_cons,List.intercalate_cons_cons,Gaps.rest] at hnext ⊢
      rw [← hnext]
      simp [Gaps.lined]
  cases parts with
  | nil => simp [bracketed,Gaps.body]
  | cons part parts =>
    have hcomma : ",\n".toList = [',','\n'] := rfl
    have hbreak : "\n".toList = ['\n'] := rfl
    rw [List.map_cons,Gaps.body,← hlines part parts,bracketed,if_neg (by simp)]
    simp only [String.toList_append,String.toList_intercalate,String.toList_singleton,List.map_map,
      Function.comp_def,hcomma,hbreak,List.append_assoc,List.cons_append,List.nil_append]

/-- The text over several lines is read. -/
theorem reads_pretty {v : Value} (h : v.Tidy isWord) (level : Nat) :
    Reads v (pretty level v).toList := by
  induction h generalizing level with
  | null => simpa [pretty,text] using reads_null
  | bool b => simpa [pretty,text] using reads_bool b
  | int h => simpa [pretty,text,chars] using reads_int h
  | float h => exact h.elim
  | string s => simpa [pretty,text,chars] using reads_string s
  | @array items _ ih =>
    have hparts := reads_array (Gaps.lined level)
      (items.map fun v => (v,(pretty (level+1) v).toList))
      fun p hp => by obtain ⟨v,hv,rfl⟩ := List.mem_map.mp hp; exact ih v hv (level+1)
    have htext := toList_bracketed '[' ']' level (items.map (pretty (level+1)))
    rw [pretty,prettyItems_eq]
    simp only [List.map_map,Function.comp_def,List.map_id'] at hparts htext
    rw [← htext] at hparts
    exact hparts
  | @object fields ho _ ih =>
    have hparts := reads_object (Gaps.lined level)
      (fields.map fun p => (p,(pretty (level+1) p.2).toList))
      (by simpa [Function.comp_def] using ho)
      fun p hp => by obtain ⟨q,hq,rfl⟩ := List.mem_map.mp hp; exact ih q hq (level+1)
    have htext := toList_bracketed '\x7b' '\x7d' level
      (fields.map fun p => quotedText p.1 ++ ": " ++ pretty (level+1) p.2)
    have hfield (p : String × Value) : (quotedText p.1 ++ ": " ++ pretty (level+1) p.2).toList =
        '"'::(Gaps.lined level).fieldTail p.1 (pretty (level+1) p.2).toList := by
      simp [quotedText,quoted,Gaps.fieldTail,Gaps.lined]
    rw [pretty,prettyObject,prettyFields_eq]
    simp only [List.map_map,Function.comp_def,List.map_id',hfield] at hparts htext ⊢
    rw [← htext] at hparts
    exact hparts

theorem parse_of_reads {v : Value} {s : String} (h : Reads v s.toList) (hheight : v.height < depthLimit) :
    parse s = .ok v := by
  have hvalue : value (3*s.toList.length+3) depthLimit (s.toList ++ []) = .ok (v,[]) :=
    h.reads (by omega) hheight fun c hc => by cases hc
  rw [List.append_nil] at hvalue
  unfold parse parseChars
  rw [hvalue]
  rfl

/-- A value without fractions is read from its text. -/
theorem parse_text {v : Value} (h : v.Tidy isWord) (hheight : v.height < depthLimit) :
    parse (text v) = .ok v :=
  parse_of_reads (by simpa [text] using reads_chars h) hheight

/-- It is also read from its text over several lines. -/
theorem parse_pretty {v : Value} (h : v.Tidy isWord) (hheight : v.height < depthLimit) (level : Nat) :
    parse (pretty level v) = .ok v :=
  parse_of_reads (reads_pretty h level) hheight

end Texts

end TaskGraph.Json
