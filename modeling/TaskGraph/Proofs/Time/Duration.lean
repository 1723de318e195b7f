import Mathlib.Tactic.Ring
import TaskGraph.Proofs.Text.Digits
import TaskGraph.Time.Duration

/-!
The text that definitions use for a span says which span it is, as long as its seconds fit 64 bits.
-/

namespace TaskGraph.Duration

/-- A count of a unit, with the name that the unit has in the text and its nanoseconds. -/
structure Term where
  count : Nat
  name : String
  unit : Nat

namespace Term

def nanos (t : Term) : Nat := t.count*t.unit

def text (t : Term) : String := toString t.count ++ t.name

/-- A letter of a unit that cannot be taken for a part of a number. -/
def isNameChar (c : Char) : Bool :=
  isUnitChar c && !c.isDigit && !Text.isBlank c && c != '.'

/-- A name is read as that of a unit. -/
def isNameOf (name : String) (unit : Nat) : Bool :=
  name.toList.all isNameChar && !name.toList.isEmpty && unitNanos? name == some unit

/-- The name is that of the unit, and a count of a unit below a second makes up no second. -/
structure IsRegular (t : Term) : Prop where
  named : isNameOf t.name t.unit = true
  small : t.unit < 1000000000 → t.nanos < 1000000000
  large : 1000000000 ≤ t.unit → t.unit/1000000000*1000000000 = t.unit

end Term

section Reading

/-- What may follow a term: nothing, or a blank. -/
def Parts (rest : List Char) : Prop := ∀ c ∈ rest.head?, c = ' '

theorem numberText_digits {ds rest : List Char} (hds : ∀ c ∈ ds, c.isDigit = true)
    (hrest : ∀ c ∈ rest.head?, c.isDigit = false ∧ Text.isBlank c = false) :
    numberText (ds ++ rest) = (ds,rest) := by
  induction ds with
  | nil =>
    cases rest with
    | nil => rfl
    | cons c rest =>
      obtain ⟨hdigit,hblank⟩ := hrest c rfl
      simp [numberText,hdigit,hblank]
  | cons d ds ih =>
    have hd := hds d List.mem_cons_self
    have htail := ih fun c hc => hds c (List.mem_cons_of_mem d hc)
    simp [numberText,hd,htail]

theorem unitName_append {name rest : List Char} (hname : ∀ c ∈ name, isUnitChar c = true)
    (hrest : Parts rest) : (name ++ rest).takeWhile isUnitChar = name ∧
      (name ++ rest).dropWhile isUnitChar = rest := by
  have hend : rest.takeWhile isUnitChar = [] ∧ rest.dropWhile isUnitChar = rest := by
    cases rest with
    | nil => exact ⟨rfl,rfl⟩
    | cons c rest =>
      obtain rfl := hrest c rfl
      exact ⟨rfl,rfl⟩
  rw [List.takeWhile_append_of_pos hname,List.dropWhile_append_of_pos hname,hend.1,hend.2,
    List.append_nil]
  exact ⟨rfl,rfl⟩

theorem Part.read?_term {t : Term} (ht : t.IsRegular) (hcount : t.count < Nat.pow 2 64)
    {rest : List Char} (hrest : Parts rest) :
    Part.read? (t.text.toList ++ rest) = some (⟨t.count,none,t.unit⟩,rest) := by
  obtain ⟨⟨hall,hnonempty⟩,hunit⟩ : (t.name.toList.all Term.isNameChar = true ∧
      t.name.toList ≠ []) ∧ unitNanos? t.name = some t.unit := by
    simpa [Term.isNameOf] using ht.named
  have hletters : ∀ c ∈ t.name.toList, isUnitChar c = true ∧ c.isDigit = false ∧
      Text.isBlank c = false ∧ c ≠ '.' := by
    intro c hc
    simpa [Term.isNameChar,and_assoc] using List.all_eq_true.mp hall c hc
  obtain ⟨c,name,hname⟩ := List.exists_cons_of_ne_nil hnonempty
  obtain ⟨-,hdigit,hblank,hpoint⟩ := hletters c (by simp [hname])
  have hnumber : numberText (t.text.toList ++ rest) =
      (Text.digits t.count,t.name.toList ++ rest) := by
    have htext : t.text.toList ++ rest = Text.digits t.count ++ (t.name.toList ++ rest) := by
      simp only [Term.text,String.toList_append,Text.toList_toString,List.append_assoc]
    rw [htext]
    refine numberText_digits (fun c => Text.isDigit_of_mem_digits) fun d hd => ?_
    rw [hname] at hd
    obtain rfl := Option.some.inj hd
    exact ⟨hdigit,hblank⟩
  -- The number ends at the name of the unit, so that it has no fraction.
  have hwhole : ∀ tail, t.name.toList ++ rest = '.'::tail → False := by
    intro tail he
    rw [hname] at he
    exact hpoint (List.cons.inj he).1
  obtain ⟨htake,hdrop⟩ := unitName_append (fun c hc => (hletters c hc).1) hrest
  have hvalue : digitsValue (Text.digits t.count) = t.count := Text.digitsValueFrom_digits t.count
  have hword : word? t.count = some t.count := if_pos hcount
  unfold Part.read?
  rw [hnumber]
  simp [htake,hdrop,hvalue,hword,hunit]
  cases rest with
  | nil => rfl
  | cons c rest =>
    obtain rfl := hrest c rfl
    rfl

/-- Less than a second is added to a span without loss, as long as its seconds fit 64 bits. -/
theorem plus_of_lt {d : Duration} {secs nanos : Nat} (hnanos : nanos < 1000000000)
    (h : (d.nanos+(secs*1000000000+nanos))/1000000000 < Nat.pow 2 64) :
    d.plus secs nanos = .ok ⟨d.nanos+(secs*1000000000+nanos)⟩ := by
  have h64 : Nat.pow 2 64 = 18446744073709551616 := rfl
  have hsum : (d.secs+secs)*1000000000+(d.subsecNanos+nanos) =
      d.nanos+(secs*1000000000+nanos) := by
    unfold Duration.secs subsecNanos
    omega
  have hnot : ¬(d.subsecNanos+nanos = 1000000000 ∧ d.secs+secs = Nat.pow 2 64-1) := by
    rintro ⟨hn,hs⟩
    omega
  have hfits : ¬Nat.pow 2 64 ≤ d.secs+secs+(d.subsecNanos+nanos)/1000000000 := by omega
  have hword : ¬Nat.pow 2 64 ≤ d.subsecNanos+nanos := by
    unfold subsecNanos
    omega
  unfold plus
  simp only [hnot,hfits,hword,if_false,hsum]

/-- A span is longer by a term, as long as its seconds fit 64 bits. -/
theorem plusPart_term {t : Term} (ht : t.IsRegular) {d : Duration}
    (h : (d.nanos+t.nanos)/1000000000 < Nat.pow 2 64) :
    d.plusPart ⟨t.count,none,t.unit⟩ = .ok ⟨d.nanos+t.nanos⟩ := by
  have h64 : Nat.pow 2 64 = 18446744073709551616 := rfl
  obtain ⟨secs,nanos,hnanos,hwhole,hsum⟩ : ∃ secs nanos, nanos < 1000000000 ∧
      wholePart? t.count t.unit = some (secs,nanos) ∧ secs*1000000000+nanos = t.nanos := by
    by_cases hunit : t.unit < 1000000000
    · have hsmall := ht.small hunit
      have hlt : t.count*t.unit < Nat.pow 2 64 := Nat.lt_trans hsmall (by decide)
      exact ⟨0,t.nanos,hsmall,by simp [wholePart?,hunit,word?,hlt,Term.nanos],by omega⟩
    · have hlarge := ht.large (Nat.le_of_not_lt hunit)
      have hsum : t.count*(t.unit/1000000000)*1000000000 = t.nanos := by
        rw [Nat.mul_assoc,hlarge,Term.nanos]
      have hlt : t.count*(t.unit/1000000000) < Nat.pow 2 64 := by omega
      refine ⟨t.count*(t.unit/1000000000),0,by decide,?_,?_⟩
      · simp [wholePart?,hunit,word?,hlt]
      · rw [Nat.add_zero,hsum]
  have hplus := @plus_of_lt d secs nanos hnanos (by rw [hsum]; exact h)
  rw [hsum] at hplus
  unfold plusPart
  simp only [hwhole,hplus]

/-- The nanoseconds of some terms. -/
def termNanos (terms : List Term) : Nat := (terms.map Term.nanos).sum

theorem termNanos_cons (t : Term) (terms : List Term) :
    termNanos (t::terms) = t.nanos+termNanos terms := List.sum_cons

/-- All the terms of a text, one after the other, with a blank before each. -/
def termChars (terms : List Term) : List Char := terms.flatMap fun t => ' '::t.text.toList

theorem Term.text_starts (t : Term) :
    ∃ c tail, t.text.toList = c::tail ∧ c.isDigit = true := by
  obtain ⟨c,tail,hc⟩ := List.exists_cons_of_ne_nil (Text.digits_ne_nil t.count)
  refine ⟨c,tail ++ t.name.toList,?_,Text.isDigit_of_mem_digits (hc ▸ List.mem_cons_self)⟩
  rw [Term.text,String.toList_append,Text.toList_toString,hc,List.cons_append]

theorem Term.IsRegular.two_le_length {t : Term} (ht : t.IsRegular) : 2 ≤ t.text.toList.length := by
  have hname : t.name.toList ≠ [] := by
    have hnamed := ht.named
    simp only [Term.isNameOf,Bool.and_eq_true,Bool.not_eq_true',List.isEmpty_eq_false_iff] at hnamed
    exact hnamed.1.2
  have hdigits := List.length_pos_iff.mpr (Text.digits_ne_nil t.count)
  have hletters := List.length_pos_iff.mpr hname
  rw [Term.text,String.toList_append,Text.toList_toString,List.length_append]
  omega

/-- One term is read off a text. -/
theorem plusParts_term {t : Term} (ht : t.IsRegular) (hcount : t.count < Nat.pow 2 64)
    {d : Duration} (h : (d.nanos+t.nanos)/1000000000 < Nat.pow 2 64) {rest : List Char}
    (hrest : Parts rest) (fuel : Nat) :
    plusParts (fuel+1) d (t.text.toList ++ rest) = plusParts fuel ⟨d.nanos+t.nanos⟩ rest := by
  have hread := Part.read?_term ht hcount hrest
  obtain ⟨c,tail,hc,hdigit⟩ := t.text_starts
  have htrim : Text.trimStart (c::(tail ++ rest)) = c::(tail ++ rest) := by
    simp [Text.trimStart,Text.not_isBlank_of_isDigit hdigit]
  rw [hc,List.cons_append] at hread ⊢
  rw [plusParts,htrim]
  simp only [hdigit,if_true,hread,plusPart_term ht h]

theorem plusParts_terms {terms : List Term}
    (h : ∀ t ∈ terms, t.IsRegular ∧ t.count < Nat.pow 2 64) {d : Duration} {fuel : Nat}
    (hsum : (d.nanos+termNanos terms)/1000000000 < Nat.pow 2 64) (hfuel : terms.length < fuel) :
    plusParts fuel d (termChars terms) = .ok ⟨d.nanos+termNanos terms⟩ := by
  induction terms generalizing d fuel with
  | nil =>
    obtain ⟨fuel,rfl⟩ : ∃ n, fuel = n+1 := ⟨fuel-1,by simp at hfuel; omega⟩
    rfl
  | cons t rest ih =>
    obtain ⟨fuel,rfl⟩ : ∃ n, fuel = n+1 := ⟨fuel-1,by simp at hfuel; omega⟩
    obtain ⟨ht,hcount⟩ := h t List.mem_cons_self
    have hparts : Parts (termChars rest) := by
      cases rest with
      | nil => intro c hc; cases hc
      | cons u rest => intro c hc; exact (Option.some.inj hc).symm
    rw [termNanos_cons,← Nat.add_assoc] at hsum ⊢
    have hblank : plusParts (fuel+1) d (termChars (t::rest)) =
        plusParts (fuel+1) d (t.text.toList ++ termChars rest) := rfl
    rw [hblank,plusParts_term ht hcount (by omega) hparts]
    exact ih (fun u hu => h u (List.mem_cons_of_mem t hu)) hsum (by simpa using hfuel)

end Reading

section Spoken

/-- A count with the name that several of the unit have, or one. -/
def Term.plural (name : String) (unit count : Nat) : Term :=
  ⟨count,if count = 1 then name else name ++ "s",unit⟩

def Term.counted (name : String) (unit count : Nat) : Term := ⟨count,name,unit⟩

theorem Term.nanos_plural (name : String) (unit count : Nat) :
    (Term.plural name unit count).nanos = count*unit := rfl

theorem Term.nanos_counted (name : String) (unit count : Nat) :
    (Term.counted name unit count).nanos = count*unit := rfl

/-- The terms of a span, from years down to nanoseconds, with those that are zero. -/
def terms (d : Duration) : List Term :=
  let s := d.secs
  let n := d.subsecNanos
  let inYear := s%31557600
  let inMonth := inYear%2630016
  let inDay := inMonth%86400
  [.plural "year" yearNanos (s/31557600),.plural "month" monthNanos (inYear/2630016),
    .plural "day" (86400*1000000000) (inMonth/86400),.counted "h" (3600*1000000000) (inDay/3600),
    .counted "m" (60*1000000000) (inDay%3600/60),.counted "s" 1000000000 (inDay%60),
    .counted "ms" 1000000 (n/1000000),.counted "us" 1000 (n/1000%1000),.counted "ns" 1 (n%1000)]

/-- The terms that are written. -/
def writtenTerms (d : Duration) : List Term := d.terms.filter fun t => t.count ≠ 0

theorem plural_eq (name : String) (unit n : Nat) : Duration.plural name n =
    ([Term.plural name unit n].filter fun t => t.count ≠ 0).map Term.text := by
  unfold Duration.plural
  split
  · next h => simp [Term.plural,h]
  split
  · next h =>
    subst h
    simp [Term.plural,Term.text]
    rfl
  · next h h1 =>
    simp [Term.plural,Term.text,h,h1,String.append_assoc]
    rfl

theorem counted_eq (name : String) (unit n : Nat) : Duration.counted name n =
    ([Term.counted name unit n].filter fun t => t.count ≠ 0).map Term.text := by
  unfold Duration.counted
  split
  · next h => simp [Term.counted,h]
  · next h =>
    simp [Term.counted,Term.text,h]
    rfl

theorem spoken_eq (d : Duration) : d.spoken =
    if d.writtenTerms = [] then "0s" else " ".intercalate (d.writtenTerms.map Term.text) := by
  have hparts : d.writtenTerms.map Term.text = Duration.plural "year" (d.secs/31557600)
      ++ Duration.plural "month" (d.secs%31557600/2630016)
      ++ Duration.plural "day" (d.secs%31557600%2630016/86400)
      ++ Duration.counted "h" (d.secs%31557600%2630016%86400/3600)
      ++ Duration.counted "m" (d.secs%31557600%2630016%86400%3600/60)
      ++ Duration.counted "s" (d.secs%31557600%2630016%86400%60)
      ++ Duration.counted "ms" (d.subsecNanos/1000000)
      ++ Duration.counted "us" (d.subsecNanos/1000%1000)
      ++ Duration.counted "ns" (d.subsecNanos%1000) := by
    rw [plural_eq _ yearNanos,plural_eq _ monthNanos,plural_eq _ (86400*1000000000),
      counted_eq _ (3600*1000000000),counted_eq _ (60*1000000000),counted_eq _ 1000000000,
      counted_eq _ 1000000,counted_eq _ 1000,counted_eq _ 1]
    simp only [← List.map_append,← List.filter_append]
    rfl
  unfold spoken
  dsimp only
  rw [← hparts]
  cases d.writtenTerms <;> rfl

theorem secs_split (s : Nat) : s/31557600*31557600+s%31557600/2630016*2630016+
    s%31557600%2630016/86400*86400+s%31557600%2630016%86400/3600*3600+
    s%31557600%2630016%86400%3600/60*60+s%31557600%2630016%86400%60 = s := by omega

theorem nanos_split (n : Nat) : n/1000000*1000000+n/1000%1000*1000+n%1000 = n := by omega

theorem secs_subsecNanos (d : Duration) : d.secs*1000000000+d.subsecNanos = d.nanos := by
  unfold secs subsecNanos
  omega

theorem termNanos_filter (l : List Term) :
    termNanos (l.filter fun t => t.count ≠ 0) = termNanos l := by
  induction l with
  | nil => rfl
  | cons t rest ih =>
    rw [termNanos_cons,← ih]
    by_cases h : t.count = 0
    · simp [h,Term.nanos]
    · simp [h,termNanos_cons]

theorem termNanos_terms (d : Duration) : termNanos d.terms = d.nanos := by
  -- The counts stand for themselves here: only how the units add up matters.
  have hsum {years months days hours minutes seconds millis micros nanos secs subsec : Nat}
      (hsecs : years*31557600+months*2630016+days*86400+hours*3600+minutes*60+seconds = secs)
      (hnanos : millis*1000000+micros*1000+nanos = subsec) :
      years*yearNanos+(months*monthNanos+(days*(86400*1000000000)+(hours*(3600*1000000000)+
        (minutes*(60*1000000000)+(seconds*1000000000+(millis*1000000+(micros*1000+(nanos*1+0)))))))) =
        secs*1000000000+subsec := by
    subst hsecs hnanos
    unfold yearNanos monthNanos
    ring
  have hnil : termNanos [] = 0 := rfl
  rw [← secs_subsecNanos d,← hsum (secs_split d.secs) (nanos_split d.subsecNanos)]
  simp only [terms,termNanos_cons,hnil,Term.nanos_plural,Term.nanos_counted]

theorem termNanos_written (d : Duration) : termNanos d.writtenTerms = d.nanos := by
  rw [writtenTerms,termNanos_filter,termNanos_terms]

theorem Term.isRegular_counted {name : String} {unit count : Nat}
    (hname : isNameOf name unit = true) (hsmall : unit < 1000000000 → count*unit < 1000000000)
    (hlarge : 1000000000 ≤ unit → unit/1000000000*1000000000 = unit) :
    (Term.counted name unit count).IsRegular := ⟨hname,hsmall,hlarge⟩

theorem Term.isRegular_plural {name : String} {unit : Nat} (hone : isNameOf name unit = true)
    (hmany : isNameOf (name ++ "s") unit = true) (hunit : 1000000000 ≤ unit)
    (hlarge : unit/1000000000*1000000000 = unit) (count : Nat) :
    (Term.plural name unit count).IsRegular := by
  refine ⟨?_,fun h => absurd hunit (Nat.not_le_of_lt h),fun _ => hlarge⟩
  unfold Term.plural
  dsimp only
  split
  · exact hone
  · exact hmany

theorem terms_regular (d : Duration) : ∀ t ∈ d.terms, t.IsRegular := by
  have hsub : d.subsecNanos < 1000000000 := Nat.mod_lt _ (by decide)
  intro t ht
  simp only [terms,List.mem_cons,List.not_mem_nil,or_false] at ht
  rcases ht with rfl | rfl | rfl | rfl | rfl | rfl | rfl | rfl | rfl
  · exact Term.isRegular_plural (by decide) (by decide) (by decide) (by decide) _
  · exact Term.isRegular_plural (by decide) (by decide) (by decide) (by decide) _
  · exact Term.isRegular_plural (by decide) (by decide) (by decide) (by decide) _
  · exact Term.isRegular_counted (by decide) (fun h => absurd h (by decide)) fun _ => by decide
  · exact Term.isRegular_counted (by decide) (fun h => absurd h (by decide)) fun _ => by decide
  · exact Term.isRegular_counted (by decide) (fun h => absurd h (by decide)) fun _ => by decide
  · exact Term.isRegular_counted (by decide) (fun _ => by omega) fun h => absurd h (by decide)
  · exact Term.isRegular_counted (by decide) (fun _ => by omega) fun h => absurd h (by decide)
  · exact Term.isRegular_counted (by decide) (fun _ => by omega) fun h => absurd h (by decide)

theorem terms_count_lt {d : Duration} (h : d.secs < Nat.pow 2 64) :
    ∀ t ∈ d.terms, t.count < Nat.pow 2 64 := by
  have hsub : d.subsecNanos < 1000000000 := Nat.mod_lt _ (by decide)
  have h64 : Nat.pow 2 64 = 18446744073709551616 := rfl
  intro t ht
  simp only [terms,List.mem_cons,List.not_mem_nil,or_false] at ht
  rcases ht with rfl | rfl | rfl | rfl | rfl | rfl | rfl | rfl | rfl <;>
    simp only [Term.plural,Term.counted] <;> omega

theorem toList_intercalate_terms (t : Term) (rest : List Term) :
    ' '::(" ".intercalate ((t::rest).map Term.text)).toList = termChars (t::rest) := by
  have hblank : " ".toList = [' '] := rfl
  rw [String.toList_intercalate,hblank]
  induction rest generalizing t with
  | nil => simp [termChars]
  | cons u rest ih =>
    have hu := ih u
    simp only [List.map_cons,List.intercalate_cons_cons] at hu ⊢
    rw [List.append_assoc,List.singleton_append,hu]
    simp [termChars]

theorem length_lt_termChars (terms : List Term) : 2*terms.length ≤ (termChars terms).length := by
  induction terms with
  | nil => simp
  | cons t rest ih =>
    obtain ⟨c,tail,hc,-⟩ := t.text_starts
    have hlen : (termChars (t::rest)).length = 1+t.text.toList.length+(termChars rest).length := by
      simp [termChars]
      omega
    rw [hlen,hc,List.length_cons,List.length_cons]
    omega

/-- A span is read from the text that says it. -/
theorem parse?_spoken {d : Duration} (h : d.secs < Nat.pow 2 64) : parse? d.spoken = some d := by
  rw [spoken_eq]
  split
  · next hnone =>
    have hd : d = zero := by
      have hsum := termNanos_written d
      rw [hnone] at hsum
      cases d
      exact congrArg Duration.mk hsum.symm
    rw [hd]
    decide
  · next hsome =>
    obtain ⟨t,rest,hterms⟩ := List.exists_cons_of_ne_nil hsome
    have hregular : ∀ t ∈ d.writtenTerms, t.IsRegular ∧ t.count < Nat.pow 2 64 := fun t ht =>
      have hmem := (List.mem_filter.mp ht).1
      ⟨terms_regular d t hmem,terms_count_lt h t hmem⟩
    have hchars := toList_intercalate_terms t rest
    have hlen := length_lt_termChars (t::rest)
    rw [hterms] at hregular ⊢
    generalize " ".intercalate ((t::rest).map Term.text) = s at hchars ⊢
    rw [← hchars,List.length_cons,List.length_cons] at hlen
    obtain ⟨c,tail,hc,hdigit⟩ := t.text_starts
    have hstart : s.toList = c::(tail ++ termChars rest) := by
      have htail : termChars (t::rest) = ' '::(t.text.toList ++ termChars rest) := rfl
      rw [htail,hc] at hchars
      exact (List.cons.inj hchars).2
    have hzero : s ≠ "0" := by
      rintro rfl
      have htwo := (hregular t List.mem_cons_self).1.two_le_length
      have hone : (c::(tail ++ termChars rest)).length = 1 := by
        rw [← hstart]
        rfl
      rw [hc,List.length_cons] at htwo
      rw [List.length_cons,List.length_append] at hone
      omega
    have hblank : Text.isBlankText s = false := by
      simp [Text.isBlankText,hstart,Text.not_isBlank_of_isDigit hdigit]
    have hread : plusParts (s.length+1) zero s.toList = .ok d := by
      have hskip : plusParts (s.length+1) zero s.toList =
          plusParts (s.length+1) zero (termChars (t::rest)) := by
        rw [← hchars]
        rfl
      have hsum := termNanos_written d
      rw [hterms] at hsum
      have hall := @plusParts_terms (t::rest) hregular zero (s.length+1)
        (by rw [hsum]; simpa [zero,secs] using h) (by rw [List.length_cons,← String.length_toList]; omega)
      rw [hskip,hall,hsum]
      simp [zero]
    unfold parse? read
    rw [if_neg hzero,hblank,if_neg (by decide),hread]
    rfl

end Spoken

section Bounds

theorem plus_secs_lt {d d' : Duration} {secs nanos : Nat} (h : d.plus secs nanos = .ok d') :
    d'.secs < Nat.pow 2 64 := by
  unfold plus at h
  dsimp only at h
  split at h
  · cases h
  split at h
  · cases h
  split at h
  · cases h
  · next hfits =>
    cases h
    have hsecs : ((d.secs+secs)*1000000000+(d.subsecNanos+nanos))/1000000000 =
        d.secs+secs+(d.subsecNanos+nanos)/1000000000 := by omega
    show ((d.secs+secs)*1000000000+(d.subsecNanos+nanos))/1000000000 < Nat.pow 2 64
    rw [hsecs]
    exact Nat.lt_of_not_le hfits

theorem plusPart_secs_lt {d d' : Duration} {part : Part} (h : d.plusPart part = .ok d') :
    d'.secs < Nat.pow 2 64 := by
  unfold plusPart at h
  split at h
  · cases h
  split at h
  · split at h
    · exact plus_secs_lt h
    · cases h
  · exact plus_secs_lt h

theorem plusParts_secs_lt {fuel : Nat} {d d' : Duration} {cs : List Char}
    (hd : d.secs < Nat.pow 2 64) (h : plusParts fuel d cs = .ok d') : d'.secs < Nat.pow 2 64 := by
  induction fuel generalizing d cs with
  | zero => cases h
  | succ fuel ih =>
    unfold plusParts at h
    split at h
    · cases h
      exact hd
    split at h
    · split at h
      · split at h
        · next hpart => exact ih (plusPart_secs_lt hpart) h
        · cases h
      · cases h
    · cases h

/-- The seconds of a span that is read fit 64 bits. -/
theorem parse?_secs_lt {s : String} {d : Duration} (h : parse? s = some d) :
    d.secs < Nat.pow 2 64 := by
  have hzero : zero.secs < Nat.pow 2 64 := by decide
  have hread : read s = .ok d := by
    unfold parse? at h
    cases hs : read s with
    | ok e => rw [hs] at h; exact congrArg Except.ok (Option.some.inj h)
    | error e => rw [hs] at h; cases h
  unfold read at hread
  split at hread
  · cases hread
    exact hzero
  split at hread
  · cases hread
  · exact plusParts_secs_lt hzero hread

/-- A span that was read is read from the text that says it. -/
theorem parse?_spoken_of_parse? {s : String} {d : Duration} (h : parse? s = some d) :
    parse? d.spoken = some d := parse?_spoken (parse?_secs_lt h)

end Bounds

end TaskGraph.Duration
