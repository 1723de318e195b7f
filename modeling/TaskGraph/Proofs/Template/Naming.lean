import TaskGraph.Template

/-!
Tags that name a value. A name made of symbols is read as a step into what is current, unless it is one
of a few words; so the tag that shows the data text of a named value can be rendered, and shows it.
-/

namespace TaskGraph

theorem Text.startsWith_iff {part s : List Char} :
    startsWith part s = true ↔ ∃ rest, s = part ++ rest := by
  induction part generalizing s with
  | nil => simp [startsWith]
  | cons p ps ih =>
    cases s with
    | nil => simp [startsWith]
    | cons c cs => simp [startsWith,ih,eq_comm (a := p)]

/-- What a text contains is contained in all that ends with the text. -/
theorem Text.containsChars_append {part s : List Char} (h : containsChars part s = true)
    (before : List Char) : containsChars part (before ++ s) = true := by
  induction before with
  | nil => exact h
  | cons c cs ih => simp [containsChars,ih]

namespace Template

/-- Words that are no names of values in a tag: two belong to the notation, three are values, and one
stands for whatever is current. -/
def reserved : List String := ["as","else","null","true","false","this"]

/-- A name that may stand for a value in a tag: it is made of symbols, does not start like a number and
is no reserved word. -/
def isPlain (name : String) : Bool :=
  name.toList.all Tag.isSymbol && name.toList.head?.any (fun c => !c.isDigit && c != '-')
    && !reserved.contains name

/-- The text of a tag that applies the data text to a name. -/
def jsonTag (name : String) : String := "\x7b\x7bjson " ++ name ++ "\x7d\x7d"

theorem toList_jsonTag (name : String) : (jsonTag name).toList =
    '\x7b' :: '\x7b' :: 'j' :: 's' :: 'o' :: 'n' :: ' '::(name.toList ++ ['\x7d','\x7d']) := by
  simp [jsonTag]

/-- What the tag calls. -/
def jsonCall (name : String) : Call := ⟨.name "json",[.path ⟨[.field name],name⟩],[]⟩

namespace Tag

theorem ne_of_isSymbol {c d : Char} (hc : isSymbol c = true) (hd : isSymbol d = false) : c ≠ d := by
  rintro rfl
  rw [hc] at hd
  cases hd

theorem skip_of_not_isBlank {c : Char} (h : isBlank c = false) (cs : List Char) :
    skip (c::cs) = c::cs := by simp [skip,h]

theorem not_isBlank_of_isSymbol {c : Char} (h : isSymbol c = true) : isBlank c = false := by
  have hne := fun d hd => ne_of_isSymbol (d := d) h hd
  simp [isBlank,hne ' ' (by decide),hne '\t' (by decide),hne '\n' (by decide),hne '\r' (by decide)]

section Literally

variable {word : String} {c : Char} {cs rest : List Char}

theorem literally_eq_some : literally word cs = some rest ↔ cs = word.toList ++ rest := by
  unfold literally
  split
  · next h =>
    obtain ⟨more,rfl⟩ := Text.startsWith_iff.mp h
    simp [← String.length_toList]
  · next h =>
    simp only [false_iff,reduceCtorEq]
    rintro rfl
    exact h (Text.startsWith_iff.mpr ⟨rest,rfl⟩)

/-- The first character decides that a fixed text does not come. -/
theorem literally_of_ne {d : Char} (hd : word.toList.head? = some d) (h : c ≠ d) :
    literally word (c::cs) = none := by
  refine Option.eq_none_iff_forall_ne_some.mpr fun rest hr => ?_
  have he := literally_eq_some.mp hr
  cases hw : word.toList with
  | nil =>
    rw [hw] at hd
    cases hd
  | cons e es =>
    rw [hw] at hd he
    rw [Option.some.inj hd] at he
    exact h (List.cons.inj he).1

end Literally

section Heads

variable {s : List Char} {c : Char} {cs : List Char} (hs : s = c::cs)
include hs

/-- What starts neither like a number nor with a mark of a value, and is no word for one, is no value. -/
theorem literal_eq_none (hmarks : c ∉ ['"','\'','[','\x7b','-']) (hdigit : c.isDigit = false)
    (hwords : ∀ w ∈ ["null","true","false"], word w s = none) (n : Nat) :
    literal n s = none := by
  subst hs
  simp only [List.mem_cons,List.not_mem_nil,or_false,not_or] at hmarks
  obtain ⟨hdouble,hsingle,hbracket,hbrace,hminus⟩ := hmarks
  have hquoted : quotedString (c::cs) = none := by
    unfold quotedString
    split
    · next he => exact absurd (List.cons.inj he).1 hdouble
    · next he => exact absurd (List.cons.inj he).1 hsingle
    · rfl
  have hlist (n : Nat) : listLiteral n (c::cs) = none := by
    cases n with
    | zero => rfl
    | succ n => rw [listLiteral,literally_of_ne rfl hbracket]; rfl
  have hrecord (n : Nat) : recordLiteral n (c::cs) = none := by
    cases n with
    | zero => rfl
    | succ n => rw [recordLiteral,literally_of_ne rfl hbrace]; rfl
  have hnumber : number (c::cs) = none := by
    rw [number,literally_of_ne rfl hminus]
    simp [run,hdigit]
  cases n with
  | zero => rfl
  | succ n =>
    rw [literal,hquoted,hlist,hrecord,hnumber,hwords "null" (by simp),hwords "true" (by simp),
      hwords "false" (by simp)]
    rfl

/-- A path that starts with a name takes the name as its first step. -/
theorem path_of_head (hdot : c ≠ '.') (hat : c ≠ '@') (hbracket : c ≠ '[')
    (hthis : (literally "this" s).bind separator = none) :
    path s = (identifier s).bind fun (name,rest) =>
      let (more,rest) := items rest.length rest
      some (⟨(.field name::more).filter (· != .field "this"),
        String.ofList (s.take (s.length-rest.length))⟩,rest) := by
  subst hs
  have hups (n : Nat) : ups n (c::cs) = ([],c::cs) := by
    cases n with
    | zero => rfl
    | succ n => rw [ups,literally_of_ne rfl hdot]; rfl
  have hitem : item (c::cs) = (identifier (c::cs)).map fun (s,rest) => (.field s,rest) := by
    unfold item
    split
    · next he => exact absurd (List.cons.inj he).1 hbracket
    · rfl
  have hroot : literally "@root" (c::cs) = none := literally_of_ne rfl hat
  have hown : literally "@" (c::cs) = none := literally_of_ne rfl hat
  have hhere : literally "./" (c::cs) = none := literally_of_ne rfl hdot
  unfold path
  simp only [hthis,hhere,Option.or_none,Option.getD_none,hroot,hown,Option.bind_none,hups,hitem,
    List.nil_append]
  cases identifier (c::cs) <;> rfl

end Heads

section Names

variable {name : String} {rest : List Char}

theorem exists_cons_of_isPlain (h : isPlain name = true) : ∃ c cs, name.toList = c::cs ∧
    isSymbol c = true ∧ c.isDigit = false ∧ c ≠ '-' := by
  simp only [isPlain,Bool.and_eq_true] at h
  obtain ⟨⟨hsymbols,hhead⟩,-⟩ := h
  cases hn : name.toList with
  | nil => simp [hn] at hhead
  | cons c cs =>
    simp only [hn,List.all_cons,Bool.and_eq_true] at hsymbols
    simp only [hn,List.head?_cons,Option.any_some,Bool.and_eq_true,Bool.not_eq_true',
      bne_iff_ne] at hhead
    exact ⟨c,cs,rfl,hsymbols.1,hhead⟩

theorem isSymbol_of_isPlain (h : isPlain name = true) : ∀ c ∈ name.toList, isSymbol c = true := by
  simp only [isPlain,Bool.and_eq_true] at h
  exact List.all_eq_true.mp h.1.1

theorem ne_of_isPlain (h : isPlain name = true) {word : String} (hw : word ∈ reserved) :
    word ≠ name := by
  rintro rfl
  simp [isPlain,hw] at h

/-- A name ends where something else than a symbol comes. -/
theorem identifier_of_isPlain (h : isPlain name = true) :
    identifier (name.toList ++ '\x7d'::rest) = some (name,'\x7d'::rest) := by
  have hsymbols := isSymbol_of_isPlain h
  obtain ⟨c,cs,hn,-⟩ := exists_cons_of_isPlain h
  have hstop : isSymbol '\x7d' = false := by decide
  have htake : (name.toList ++ '\x7d'::rest).takeWhile isSymbol = name.toList := by
    rw [List.takeWhile_append_of_pos hsymbols]
    simp [hstop]
  have hdrop : (name.toList ++ '\x7d'::rest).dropWhile isSymbol = '\x7d'::rest := by
    rw [List.dropWhile_append_of_pos hsymbols]
    simp [hstop]
  have hne : name.toList.isEmpty = false := by rw [hn]; rfl
  rw [identifier,run]
  simp only [htake,hdrop,hne]
  rw [String.ofList_toList]
  rfl

/-- A reserved word that seems to come first goes on as a name. -/
theorem head?_of_literally (h : isPlain name = true) {word : String} (hw : word ∈ reserved)
    {more : List Char} (hl : literally word (name.toList ++ '\x7d'::rest) = some more) :
    ∃ c cs, more = c::cs ∧ isSymbol c = true := by
  have hwords : reserved.all (fun w => w.toList.all isSymbol) = true := by decide
  have hword := List.all_eq_true.mp (List.all_eq_true.mp hwords word hw)
  rcases List.append_eq_append_iff.mp (literally_eq_some.mp hl) with ⟨a,ha,hr⟩ | ⟨a,ha,hr⟩
  · cases a with
    | nil =>
      rw [List.append_nil] at ha
      exact absurd (String.toList_inj.mp ha) (ne_of_isPlain h hw)
    | cons d ds =>
      have hd := hword d (by rw [ha]; simp)
      rw [← (List.cons.inj hr).1] at hd
      exact absurd hd (by decide)
  · cases a with
    | nil =>
      rw [List.append_nil] at ha
      exact absurd (String.toList_inj.mp ha.symm) (ne_of_isPlain h hw)
    | cons d ds => exact ⟨d,_,hr,isSymbol_of_isPlain h d (by rw [ha]; simp)⟩

theorem word_of_isPlain (h : isPlain name = true) {w : String} (hw : w ∈ reserved) :
    word w (name.toList ++ '\x7d'::rest) = none := by
  unfold word
  cases hl : literally w (name.toList ++ '\x7d'::rest) with
  | none => rfl
  | some more =>
    obtain ⟨c,cs,rfl,hc⟩ := head?_of_literally h hw hl
    simp [hc]

theorem startsWithKeyword_of_isPlain (h : isPlain name = true) :
    startsWithKeyword (name.toList ++ '\x7d'::rest) = false := by
  rw [startsWithKeyword,List.any_eq_false]
  intro w hw
  have hmem : w ∈ reserved := List.mem_append_left ["null","true","false","this"] hw
  cases hl : literally w (name.toList ++ '\x7d'::rest) with
  | none => simp
  | some more =>
    obtain ⟨c,cs,rfl,hc⟩ := head?_of_literally h hmem hl
    simp [skip_of_not_isBlank (not_isBlank_of_isSymbol hc),hc]

theorem path_of_isPlain (h : isPlain name = true) :
    path (name.toList ++ '\x7d'::rest) = some (⟨[.field name],name⟩,'\x7d'::rest) := by
  obtain ⟨c,cs,hn,hc,-⟩ := exists_cons_of_isPlain h
  have hthis : (literally "this" (name.toList ++ '\x7d'::rest)).bind separator = none := by
    cases hl : literally "this" (name.toList ++ '\x7d'::rest) with
    | none => rfl
    | some more =>
      obtain ⟨d,ds,rfl,hd⟩ := head?_of_literally h (by decide) hl
      rw [Option.bind_some]
      unfold separator
      split
      · next he => exact absurd (List.cons.inj he).1 (ne_of_isSymbol hd (by decide))
      · next he => exact absurd (List.cons.inj he).1 (ne_of_isSymbol hd (by decide))
      · rfl
  have hne : name ≠ "this" := (ne_of_isPlain h (by decide)).symm
  have hitems (n : Nat) : items n ('\x7d'::rest) = ([],'\x7d'::rest) := by
    cases n <;> rfl
  have hs : name.toList ++ '\x7d'::rest = c::(cs ++ '\x7d'::rest) := by rw [hn]; rfl
  rw [path_of_head hs (ne_of_isSymbol hc (by decide)) (ne_of_isSymbol hc (by decide))
    (ne_of_isSymbol hc (by decide)) hthis,identifier_of_isPlain h,Option.bind_some]
  simp [hitems,hne]

theorem param_of_isPlain (h : isPlain name = true) (n : Nat) :
    param (n+1) (name.toList ++ '\x7d'::rest) =
      some (.path ⟨[.field name],name⟩,'\x7d'::rest) := by
  obtain ⟨c,cs,hn,hc,hdigit,hminus⟩ := exists_cons_of_isPlain h
  have hliteral (n : Nat) : literal n (name.toList ++ '\x7d'::rest) = none := by
    have hs : name.toList ++ '\x7d'::rest = c::(cs ++ '\x7d'::rest) := by rw [hn]; rfl
    refine literal_eq_none hs ?_ hdigit ?_ n
    · simp [hminus,ne_of_isSymbol hc (d := '"') (by decide),
        ne_of_isSymbol hc (d := '\'') (by decide),ne_of_isSymbol hc (d := '[') (by decide),
        ne_of_isSymbol hc (d := '\x7b') (by decide)]
    · intro w hw
      have hall : ∀ w ∈ ["null","true","false"], w ∈ reserved := by decide
      exact word_of_isPlain h (hall w hw)
  rw [param,startsWithKeyword_of_isPlain h,hliteral,path_of_isPlain h]
  rfl

end Names

section Calls

variable {name : String} {rest : List Char}

theorem param_of_brace (n : Nat) : param n ('\x7d'::rest) = none := by
  have hword (w : String) (hw : w.toList.head? ≠ some '\x7d') (hne : w.toList ≠ []) :
      word w ('\x7d'::rest) = none := by
    obtain ⟨d,ds,hd⟩ := List.exists_cons_of_ne_nil hne
    have hhead : w.toList.head? = some d := by rw [hd]; rfl
    rw [word,literally_of_ne hhead fun he => hw (by rw [hhead,he])]
    rfl
  have hliteral (n : Nat) : literal n ('\x7d'::rest) = none := by
    refine literal_eq_none rfl (by decide) (by decide) ?_ n
    intro w hw
    have hall : ∀ w ∈ ["null","true","false"], w.toList.head? ≠ some '\x7d' ∧ w.toList ≠ [] := by
      decide
    exact hword w (hall w hw).1 (hall w hw).2
  have hkeyword : startsWithKeyword ('\x7d'::rest) = false := rfl
  have hidentifier : identifier ('\x7d'::rest) = none := rfl
  have hpath : path ('\x7d'::rest) = none := by
    rw [path_of_head rfl (by decide) (by decide) (by decide) rfl,hidentifier]
    rfl
  cases n with
  | zero => rfl
  | succ n =>
    rw [param,hkeyword,hliteral,hpath]
    cases n <;> rfl

theorem arguments_of_brace (n : Nat) :
    arguments n ('\x7d'::rest) = ([],[],'\x7d'::rest) := by
  cases n with
  | zero => rfl
  | succ n =>
    have hskip : skip ('\x7d'::rest) = '\x7d'::rest := rfl
    have hidentifier : identifier ('\x7d'::rest) = none := rfl
    simp only [arguments,hskip,hidentifier,Option.bind_none,bind,param_of_brace]

/-- A plain name after a blank is the only parameter. -/
theorem arguments_of_isPlain (h : isPlain name = true) (n : Nat) :
    arguments (n+2) (' '::(name.toList ++ '\x7d'::rest)) =
      ([.path ⟨[.field name],name⟩],[],'\x7d'::rest) := by
  obtain ⟨c,cs,hn,hc,-⟩ := exists_cons_of_isPlain h
  have hskip : skip (' '::(name.toList ++ '\x7d'::rest)) = name.toList ++ '\x7d'::rest := by
    rw [hn]
    exact skip_of_not_isBlank (not_isBlank_of_isSymbol hc) _
  have hbrace : skip ('\x7d'::rest) = '\x7d'::rest := rfl
  have hequals : literally "=" ('\x7d'::rest) = none := rfl
  rw [arguments]
  simp only [hskip,identifier_of_isPlain h,bind,Option.bind_some,hbrace,hequals,Option.bind_none,
    param_of_isPlain h,arguments_of_brace]

theorem expression_json (h : isPlain name = true) (rest : List Char) :
    expression ('j' :: 's' :: 'o' :: 'n' :: ' '::(name.toList ++ '\x7d'::rest)) =
      some (jsonCall name,'\x7d'::rest) := by
  have hidentifier (s : List Char) :
      identifier ('j' :: 's' :: 'o' :: 'n' :: ' '::s) = some ("json",' '::s) := rfl
  have hlength (s : List Char) : ('j' :: 's' :: 'o' :: 'n' :: ' '::s).length = s.length+2+2+1 := rfl
  rw [expression,hlength,application]
  simp only [hidentifier,bind,Option.bind_some,arguments_of_isPlain h]
  rfl

theorem scan_json (h : isPlain name = true) :
    scan (jsonTag name).toList = some (⟨.output (jsonCall name),false,some false⟩,[]) := by
  have hexpression := expression_json h ['\x7d']
  rw [toList_jsonTag]
  -- The letter after the braces decides that this is no tag of another kind.
  show (expression ('j' :: 's' :: 'o' :: 'n' :: ' '::(name.toList ++ ['\x7d','\x7d']))).bind
    (fun x => finish (.output x.1) false braces x.2) = _
  rw [hexpression]
  rfl

end Calls

end Tag

section Rendering

variable {name : String}

theorem parse?_jsonTag (h : isPlain name = true) :
    parse? (jsonTag name) = some [.output ⟨1,1⟩ (jsonCall name)] := by
  have hscan := Tag.scan_json h
  have hbraces : Text.startsWith ['\x7b','\x7b'] (jsonTag name).toList = true := by
    rw [toList_jsonTag]
    rfl
  obtain ⟨c,cs,hcs⟩ : ∃ c cs, (jsonTag name).toList = c::cs := ⟨_,_,toList_jsonTag name⟩
  have hcut : Piece.cut (c::cs) (2*(c::cs).length+2) false (c::cs) =
      some [.mark ⟨.output (jsonCall name),false,some false⟩ ⟨1,1⟩ [] []] := by
    rw [hcs] at hscan hbraces
    rw [Piece.cut]
    · simp only [hbraces,hscan,if_true,bind,Option.bind_some,Nat.sub_self,List.take_zero]
      rfl
    · simp
  rw [parse?]
  simp only [hcs,hcut]
  rfl

/-- A field of the root, seen outside all blocks. -/
theorem lookup_field {root v : Value} (h : root.field? name = some v) :
    lookup root [{}] ⟨[.field name],name⟩ = .ok { value := v, path := some [name] } := by
  cases root with
  | object fields =>
    have hget : Fields.get? name fields = some v := h
    have hdescend : descend [name] (some (.object fields)) = .ok (some v) := by
      simp [descend,hget,bind,Except.bind]
    show inRoot (.object fields) [name] = _
    rw [inRoot,hdescend]
    rfl
  | _ => cases h

/-- The tag shows the data text of what the name stands for. -/
theorem renderText_jsonTag (h : isPlain name = true) (world : Surroundings) {root v : Value}
    (hv : root.field? name = some v) :
    renderText world (jsonTag name) root = .ok (Json.text v) := by
  obtain ⟨n,hn⟩ : ∃ n, depthFor (jsonTag name) root = n+1 :=
    Nat.exists_eq_succ_of_ne_zero (Nat.mul_ne_zero (by simp) (by simp))
  have hcall (found : Found) : Helper.call? world "json" [found] [] =
      some (.ok (.value (.string (Json.text found.value)))) := rfl
  have hplace {α : Type} (place : Cause → Fault) (a : α) :
      (Except.ok a : Except Cause α).mapError place = .ok a := rfl
  unfold renderText
  rw [parse?_jsonTag h,hn]
  simp [inTurn,renderElement,jsonCall,Setting.nameOf,Setting.expandAll,Setting.expand,
    Setting.expandOptions,atPlace,apply,lookup_field hv,hcall,hplace,bind,Except.bind,
    Call.isBare,Given.text,Value.shown]

theorem hasMarks_jsonTag (name : String) : hasMarks (jsonTag name) = true := by
  have hopen : "\x7b\x7b".toList = ['\x7b','\x7b'] := rfl
  have hclose : "\x7d\x7d".toList = ['\x7d','\x7d'] := rfl
  have hbraces : Text.containsChars ['\x7d','\x7d'] ['\x7d','\x7d'] = true := rfl
  have hend := Text.containsChars_append hbraces
    ('\x7b' :: '\x7b' :: 'j' :: 's' :: 'o' :: 'n' :: ' '::name.toList)
  rw [hasMarks,Text.contains,Text.contains,hopen,hclose,toList_jsonTag]
  exact Bool.and_eq_true_iff.mpr ⟨rfl,hend⟩

theorem renderString_jsonTag (h : isPlain name = true) (world : Surroundings) {root v : Value}
    (hv : root.field? name = some v) :
    renderString world root (jsonTag name) = .ok (Json.text v) := by
  rw [renderString,if_pos (hasMarks_jsonTag name),renderText_jsonTag h world hv]

end Rendering

end Template

end TaskGraph
