import Mathlib.Data.Finset.Lattice.Fold
import Mathlib.Data.List.Sort
import TaskGraph.Proofs.Definition.Places
import TaskGraph.Proofs.Graph.Nesting

/-!
What building reports of tags: every request for a tag that is held around it, and every group of tags
that are asked for inside each other in a circle. Without such reports tags can be ranked so that every
request is for a tag above all that are held around it.
-/

namespace TaskGraph

open Relation

/-- At least two names in order: those that can be reached from each other. -/
structure IsComponent (r : String → String → Prop) (names : List String) : Prop where
  ordered : names.Pairwise (· < ·)
  several : 2 ≤ names.length
  maximal : ∀ a ∈ names, ∀ b, b ∈ names ↔ ReflTransGen r a b ∧ ReflTransGen r b a

theorem exists_ne_of_several {names : List String} (ho : names.Pairwise (· < ·))
    (hs : 2 ≤ names.length) (a : String) : ∃ b ∈ names, b ≠ a := by
  match names with
  | first::second::rest =>
    have hlt : first < second := (List.pairwise_cons.mp ho).1 second List.mem_cons_self
    by_cases he : first = a
    · refine ⟨second,List.mem_cons_of_mem first List.mem_cons_self,?_⟩
      rintro rfl
      rw [he] at hlt
      exact String.lt_irrefl _ hlt
    · exact ⟨first,List.mem_cons_self,he⟩

namespace Links

variable {links : Links}

theorem mem_knot_iff {a b : String} (ha : a ∈ links.names) :
    b ∈ links.knot a ↔ ReflTransGen links.Refers a b ∧ ReflTransGen links.Refers b a := by
  rw [mem_knot]
  constructor
  · rintro ⟨-,rfl | ⟨hab,hba⟩⟩
    · exact ⟨.refl,.refl⟩
    · exact ⟨hab.to_reflTransGen,hba.to_reflTransGen⟩
  · rintro ⟨hab,hba⟩
    rcases reflTransGen_iff_eq_or_transGen.mp hab with rfl | hab
    · exact ⟨ha,.inl rfl⟩
    rcases reflTransGen_iff_eq_or_transGen.mp hba with rfl | hba
    · exact ⟨ha,.inl rfl⟩
    obtain ⟨c,-,hcb⟩ := TransGen.tail'_iff.mp hab
    exact ⟨links.mem_names_of_mem_next hcb,.inr ⟨hab,hba⟩⟩

/-- A knot is listed at its first name. -/
theorem listed_iff {name : String} {tags : List String} :
    (if 1 < (links.knot name).length && (links.knot name).head? == some name then
      some (links.knot name) else none) = some tags ↔
    2 ≤ tags.length ∧ tags.head? = some name ∧ links.knot name = tags := by
  split
  · next h =>
    simp only [Bool.and_eq_true,decide_eq_true_eq,beq_iff_eq] at h
    constructor
    · intro he
      cases he
      exact ⟨h.1,h.2,rfl⟩
    · rintro ⟨-,-,rfl⟩
      rfl
  · next h =>
    constructor
    · intro he
      cases he
    · rintro ⟨hl,hh,rfl⟩
      simp [hh] at h
      omega

theorem mem_knots {tags : List String} :
    tags ∈ links.knots ↔ 2 ≤ tags.length ∧ ∃ a ∈ links.names, links.knot a = tags := by
  have hmem : tags ∈ links.knots ↔
      ∃ name ∈ links.names, 2 ≤ tags.length ∧ tags.head? = some name ∧ links.knot name = tags := by
    rw [knots,List.mem_filterMap]
    exact exists_congr fun name => and_congr_right fun _ => listed_iff
  rw [hmem]
  constructor
  · rintro ⟨name,hn,hl,-,he⟩
    exact ⟨hl,name,hn,he⟩
  · rintro ⟨hl,a,-,rfl⟩
    obtain ⟨first,hf⟩ : ∃ first, (links.knot a).head? = some first :=
      ⟨_,List.head?_eq_some_head (List.ne_nil_of_length_pos (by omega))⟩
    have hfirst : first ∈ links.knot a := List.mem_of_mem_head? hf
    exact ⟨first,(mem_knot.mp hfirst).1,hl,hf,knot_eq hfirst⟩

theorem knot_ordered (hnames : links.names.Pairwise (· < ·)) (a : String) :
    (links.knot a).Pairwise (· < ·) :=
  List.Pairwise.sublist List.filter_sublist hnames

/-- Where names stand in order, the knots are the components. -/
theorem mem_knots_iff (hnames : links.names.Pairwise (· < ·)) {tags : List String} :
    tags ∈ links.knots ↔ IsComponent links.Refers tags := by
  rw [mem_knots]
  constructor
  · rintro ⟨hl,a,ha,rfl⟩
    refine ⟨knot_ordered hnames a,hl,fun b hb c => ?_⟩
    rw [← knot_eq hb]
    exact mem_knot_iff (mem_knot.mp hb).1
  · intro h
    refine ⟨h.several,?_⟩
    obtain ⟨a,ha⟩ : ∃ a, a ∈ tags := List.exists_mem_of_length_pos (by have := h.several; omega)
    obtain ⟨b,hb,hne⟩ := exists_ne_of_several h.ordered h.several a
    obtain ⟨-,hba⟩ := (h.maximal a ha b).mp hb
    have hname : a ∈ links.names := by
      rcases reflTransGen_iff_eq_or_transGen.mp hba with he | hba
      · exact absurd he.symm hne
      · obtain ⟨c,-,hca⟩ := TransGen.tail'_iff.mp hba
        exact links.mem_names_of_mem_next hca
    refine ⟨a,hname,?_⟩
    apply List.Pairwise.eq_of_mem_iff (knot_ordered hnames a) h.ordered
    intro c
    rw [mem_knot_iff hname,h.maximal a ha c]

theorem knots_nodup (hnames : links.names.Nodup) : links.knots.Nodup := by
  rw [knots]
  refine List.Pairwise.filterMap _ ?_ hnames
  intro a b hne tags ha tags' hb he
  have hfirst := (listed_iff.mp ha).2.1
  have hsecond := (listed_iff.mp hb).2.1
  rw [he,hsecond] at hfirst
  exact hne (Option.some.inj hfirst).symm

end Links

namespace Graph

theorem names_tagLinks (pairs : List (String × String)) :
    (tagLinks pairs).names = NameSet.ofList (pairs.flatMap fun p => [p.1,p.2]) := by
  rw [tagLinks,Links.names,List.map_map]
  exact List.map_id _

theorem mem_tagFaults {pairs : List (String × String)} {tags : List String} :
    .tagOrderConflict tags ∈ tagFaults pairs ↔
      IsComponent (fun outer tag => (outer,tag) ∈ pairs) tags := by
  have hrefers : (tagLinks pairs).Refers = fun outer tag => (outer,tag) ∈ pairs := by
    funext outer tag
    exact propext refers_tagLinks
  have hordered : (tagLinks pairs).names.Pairwise (· < ·) := by
    rw [names_tagLinks]
    exact NameSet.ofList_ordered _
  rw [← hrefers,← Links.mem_knots_iff hordered]
  simp [tagFaults]

theorem tagFaults_nodup (pairs : List (String × String)) : (tagFaults pairs).Nodup := by
  have hnames : (tagLinks pairs).names.Nodup := by
    rw [names_tagLinks]
    exact NameSet.ofList_nodup _
  apply (Links.knots_nodup hnames).map
  intro a b he
  cases he
  rfl

/-- Whether a fault is about tags that are asked for inside nodes that hold some. -/
def Fault.isAboutTags : Fault → Bool
  | .reentrantTag .. | .tagOrderConflict _ => true
  | _ => false

theorem levelFaults_notAboutTags {path : String} {nodes : List (GraphNode Graph)}
    {terminal : List String} {f : Fault} (h : f ∈ levelFaults path nodes terminal) :
    f.isAboutTags = false := by
  simp only [levelFaults,List.mem_append,List.mem_flatMap,List.mem_map] at h
  rcases h with ((⟨n,-,id,-,rfl⟩ | ⟨n,-,ht⟩) | ⟨cycle,-,rfl⟩) | ⟨id,-,rfl⟩
  · rfl
  · obtain ⟨target,-,hf⟩ := List.mem_filterMap.mp ht
    split at hf
    · cases hf
      rfl
    split at hf
    · cases hf
    · cases hf
      rfl
  · rfl
  · rfl

/-- Of the faults of a node by itself only those for tags that are held around it are about tags. -/
theorem nodeFaults_aboutTags {cap : Nat} {path : String} {held : NameSet}
    {d : NodeDefinition Block} {f : Fault} (h : f ∈ nodeFaults cap path held d)
    (ha : f.isAboutTags = true) : ∃ tag ∈ d.resources, tag ∈ held ∧ f = .reentrantTag path tag := by
  have hinvalid {test : Prop} [Decidable test] {reason : String}
      (hf : f ∈ if test then [Fault.invalidNode path reason] else []) : False := by
    split at hf
    · rw [List.mem_singleton.mp hf] at ha
      cases ha
    · cases hf
  simp only [nodeFaults,List.mem_append] at h
  rcases h with (((h | h) | h) | h) | h
  · obtain ⟨tag,ht,rfl⟩ := List.mem_map.mp h
    obtain ⟨hmem,hheld⟩ := List.mem_filter.mp ht
    exact ⟨tag,NameSet.mem_ofList.mp hmem,by simpa using hheld,rfl⟩
  · split at h
    · cases h
    · rcases List.mem_append.mp h with h | h
      · exact (hinvalid h).elim
      · exact (hinvalid h).elim
  · exact (hinvalid h).elim
  · exact (hinvalid h).elim
  · split at h
    · exact (hinvalid h).elim
    · split at h
      · exact (hinvalid h).elim
      · exact (hinvalid h).elim
    · exact (hinvalid h).elim
    · exact (hinvalid h).elim
    · cases h

theorem siteFaults_aboutTags {cap : Nat} {s : Site} {f : Fault} (h : f ∈ siteFaults cap s)
    (ha : f.isAboutTags = true) :
    ∃ path held d, s = .node path held d ∧ ∃ tag ∈ d.resources, tag ∈ held ∧
      f = .reentrantTag path tag := by
  cases s with
  | opening path b =>
    rcases List.mem_append.mp h with h | h
    · obtain ⟨id,-,rfl⟩ := List.mem_map.mp h
      cases ha
    · split at h
      · rw [List.mem_singleton.mp h] at ha
        cases ha
      · cases h
  | closing path b =>
    rw [levelFaults_notAboutTags h] at ha
    cases ha
  | node path held d => exact ⟨path,held,d,rfl,nodeFaults_aboutTags h ha⟩

theorem reentrantTag_mem_nodeFaults {cap : Nat} {path tag : String} {held : NameSet}
    {d : NodeDefinition Block} (ht : tag ∈ d.resources) (hh : tag ∈ held) :
    .reentrantTag path tag ∈ nodeFaults cap path held d := by
  have hmem : tag ∈ (NameSet.ofList d.resources).filter held.contains :=
    List.mem_filter.mpr ⟨NameSet.mem_ofList.mpr ht,by simpa using hh⟩
  simp only [nodeFaults,List.mem_append]
  exact .inl (.inl (.inl (.inl (List.mem_map.mpr ⟨tag,hmem,rfl⟩))))

theorem mem_nestings {s : Site} {outer tag : String} : (outer,tag) ∈ nestings s ↔
    ∃ path held d, s = .node path held d ∧ tag ∈ d.resources ∧ tag ∉ held ∧ outer ∈ held := by
  cases s with
  | opening | closing => simp [nestings]
  | node path held d =>
    simp only [nestings,List.mem_flatMap,List.mem_filter,NameSet.mem_ofList,List.mem_map,
      Prod.mk.injEq]
    constructor
    · rintro ⟨x,⟨hx,hfree⟩,y,hy,rfl,rfl⟩
      exact ⟨path,held,d,rfl,hx,by simpa using hfree,hy⟩
    · rintro ⟨_,_,_,he,ht,hfree,ho⟩
      cases he
      exact ⟨tag,⟨ht,by simpa using hfree⟩,outer,ho,rfl,rfl⟩

end Graph

namespace Definition

variable {d : Definition}

/-- A node of the definition at a path, with the nodes around it. -/
def Places (d : Definition) (path : String) (around : List (NodeDefinition Block))
    (node : NodeDefinition Block) : Prop :=
  d.block.Places "" path around node

/-- Some node asks for a tag that no node around it holds, while one around it holds another. -/
def Nests (d : Definition) (outer tag : String) : Prop :=
  ∃ path around node, d.Places path around node ∧ tag ∈ node.resources ∧
    (∀ e ∈ around, tag ∉ e.resources) ∧ ∃ e ∈ around, outer ∈ e.resources

theorem mem_sites {path : String} {held : NameSet} {node : NodeDefinition Block}
    (h : .node path held node ∈ d.sites) :
    ∃ around e, d.Places path around e ∧ node.resources = e.resources ∧
      ∀ tag, tag ∈ held ↔ ∃ outer ∈ around, tag ∈ outer.resources := by
  obtain ⟨around,e,hplace,hres,hheld⟩ := Site.exists_place d.block h
  exact ⟨around,e,hplace,hres,fun tag => by simpa using hheld tag⟩

theorem Places.site (hd : d.block.HasDistinctSteps) {path : String}
    {around : List (NodeDefinition Block)} {node : NodeDefinition Block}
    (h : d.Places path around node) : ∃ held seen, .node path held seen ∈ d.sites ∧
      seen.resources = node.resources ∧
      ∀ tag, tag ∈ held ↔ ∃ outer ∈ around, tag ∈ outer.resources := by
  obtain ⟨held,previous,hheld,hsub⟩ := Site.exists_sites hd [] h
  exact ⟨held,_,hsub (Site.mem_ofNode.mpr (.inl rfl)),rfl,fun tag => by simpa using hheld tag⟩

theorem mem_tagPairs (hd : d.block.HasDistinctSteps) {outer tag : String} :
    (outer,tag) ∈ d.tagPairs ↔ d.Nests outer tag := by
  rw [tagPairs,List.mem_flatMap]
  constructor
  · rintro ⟨s,hs,hpair⟩
    obtain ⟨path,held,node,rfl,ht,hfree,ho⟩ := Graph.mem_nestings.mp hpair
    obtain ⟨around,e,hplace,hres,hheld⟩ := mem_sites hs
    refine ⟨path,around,e,hplace,hres ▸ ht,?_,(hheld outer).mp ho⟩
    intro x hx hmem
    exact hfree ((hheld tag).mpr ⟨x,hx,hmem⟩)
  · rintro ⟨path,around,node,hplace,ht,hfree,ho⟩
    obtain ⟨held,seen,hsite,hres,hheld⟩ := hplace.site hd
    refine ⟨_,hsite,Graph.mem_nestings.mpr ⟨path,held,seen,rfl,hres ▸ ht,?_,(hheld outer).mpr ho⟩⟩
    intro hmem
    obtain ⟨x,hx,hin⟩ := (hheld tag).mp hmem
    exact hfree x hx hin

theorem reentrantTag_mem_faults {cap : Nat} (hd : d.block.HasDistinctSteps) {path tag : String} :
    .reentrantTag path tag ∈ d.faults cap ↔ ∃ around node, d.Places path around node ∧
      tag ∈ node.resources ∧ ∃ e ∈ around, tag ∈ e.resources := by
  rw [mem_faults]
  constructor
  · rintro (⟨s,hs,hf⟩ | hf)
    · obtain ⟨p,held,node,rfl,t,ht,hh,he⟩ := Graph.siteFaults_aboutTags hf rfl
      cases he
      obtain ⟨around,e,hplace,hres,hheld⟩ := mem_sites hs
      exact ⟨around,e,hplace,hres ▸ ht,(hheld tag).mp hh⟩
    · obtain ⟨tags,-,he⟩ := List.mem_map.mp hf
      cases he
  · rintro ⟨around,node,hplace,ht,hh⟩
    obtain ⟨held,seen,hsite,hres,hheld⟩ := hplace.site hd
    refine .inl ⟨_,hsite,?_⟩
    exact Graph.reentrantTag_mem_nodeFaults (hres ▸ ht) ((hheld tag).mpr hh)

/-- Only the faults of all sites taken together are about the order of tags. -/
theorem notMem_siteFaults (cap : Nat) (d : Definition) (tags : List String) :
    .tagOrderConflict tags ∉ d.sites.flatMap (Graph.siteFaults cap) := by
  intro h
  obtain ⟨s,-,hf⟩ := List.mem_flatMap.mp h
  obtain ⟨path,held,node,rfl,tag,-,-,he⟩ := Graph.siteFaults_aboutTags hf rfl
  cases he

theorem tagOrderConflict_mem_faults {cap : Nat} (hd : d.block.HasDistinctSteps)
    {tags : List String} : .tagOrderConflict tags ∈ d.faults cap ↔ IsComponent d.Nests tags := by
  have hpairs : (fun outer tag => (outer,tag) ∈ d.tagPairs) = d.Nests := by
    funext outer tag
    exact propext (mem_tagPairs hd)
  rw [faults,List.mem_append,← hpairs,← Graph.mem_tagFaults]
  constructor
  · rintro (h | h)
    · exact absurd h (notMem_siteFaults cap d tags)
    · exact h
  · exact .inr

theorem count_tagOrderConflict_le (cap : Nat) (d : Definition) (tags : List String) :
    (d.faults cap).count (.tagOrderConflict tags) ≤ 1 := by
  have hnone := List.count_eq_zero.mpr (notMem_siteFaults cap d tags)
  have hone := List.nodup_iff_count_le_one.mp (Graph.tagFaults_nodup (d.sites.flatMap Graph.nestings))
    (.tagOrderConflict tags)
  rw [faults,List.count_append,hnone]
  omega

/-- The ranks of nested requests grow inwards. -/
theorem exists_rank_of_build {cap : Nat} {g : Graph} (hb : d.build cap = .ok g) :
    ∃ rank : String → Nat, ∀ p ∈ d.tagPairs, rank p.1 < rank p.2 := by
  obtain ⟨rank,hrank⟩ := Graph.exists_rank_of_tagFaults (tagFaults_of_build hb) fun p hp => by
    obtain ⟨s,-,hp⟩ := List.mem_flatMap.mp hp
    exact Graph.ne_of_mem_nestings hp
  let top := d.tagPairs.toFinset.sup fun p => rank p.1
  have htop : ∀ p ∈ d.tagPairs, rank p.1 ≤ top := by
    intro p hp
    exact Finset.le_sup (f := fun p => rank p.1) (List.mem_toFinset.mpr hp)
  refine ⟨fun tag => top-rank tag,fun p hp => ?_⟩
  have hlt := hrank p hp
  have hle := htop p hp
  show top-rank p.1 < top-rank p.2
  omega

/-- What building says of the tags of a definition. -/
structure ReportsTags (cap : Nat) (d : Definition) : Prop where
  reentrant : ∀ path tag, .reentrantTag path tag ∈ d.faults cap ↔ ∃ around node,
    d.Places path around node ∧ tag ∈ node.resources ∧ ∃ e ∈ around, tag ∈ e.resources
  conflicts : ∀ tags, .tagOrderConflict tags ∈ d.faults cap ↔ IsComponent d.Nests tags
  once : ∀ tags, (d.faults cap).count (.tagOrderConflict tags) ≤ 1
  ranked : ∀ g, d.build cap = .ok g → ∃ rank : String → Nat, ∀ path around node,
    d.Places path around node → ∀ tag ∈ node.resources, ∀ e ∈ around, ∀ held ∈ e.resources,
      rank held < rank tag

/-- Of a definition in which no steps share an id, exactly the requests for tags that are held around
them are reported, and exactly the groups of tags that are nested in a circle, each once. A definition
that is built has its tags in an order: inside a node only tags above those of the node are asked for. -/
theorem reportsTags (cap : Nat) (d : Definition) (hd : d.block.HasDistinctSteps) :
    d.ReportsTags cap where
  reentrant _ _ := reentrantTag_mem_faults hd
  conflicts _ := tagOrderConflict_mem_faults hd
  once := count_tagOrderConflict_le cap d
  ranked g hb := by
    obtain ⟨rank,hrank⟩ := exists_rank_of_build hb
    refine ⟨rank,fun path around node hplace tag ht e he held hh => ?_⟩
    have hfree : ∀ x ∈ around, tag ∉ x.resources := by
      intro x hx hmem
      have hfault : .reentrantTag path tag ∈ d.faults cap :=
        (reentrantTag_mem_faults hd).mpr ⟨around,node,hplace,ht,x,hx,hmem⟩
      rw [(build_eq_ok.mp hb).1] at hfault
      cases hfault
    have hpair : (held,tag) ∈ d.tagPairs :=
      (mem_tagPairs hd).mpr ⟨path,around,node,hplace,ht,hfree,e,he,hh⟩
    exact hrank _ hpair

/-- A step that asks for one tag. -/
def taking (tag : String) : NodeDefinition Block where
  kind := .action "echo" .null
  resources := [tag]

/-- Printing takes paper while it holds ink, binding takes ink while it holds paper, and a second try
at printing asks for the ink that is held already. -/
def workshop : Definition where
  name := "workshop"
  nodes := [
    ("print",{ kind := .guarded (.steps [("cut",taking "paper")])
                 (some (.steps [("again",taking "ink")])) none,
               resources := ["ink"] }),
    ("bind",{ kind := .sequence (.steps [("stamp",taking "ink")]), resources := ["paper"] })]

theorem workshop_hasDistinctSteps : workshop.block.HasDistinctSteps := by
  have hstep (id tag : String) : (Block.steps [(id,taking tag)]).HasDistinctSteps := by
    apply Block.hasDistinctSteps_of_parts
    · intro steps he
      cases he
      simp
    · simp [Block.members,taking,NodeDefinition.parts,KindDefinition.parts]
  apply Block.hasDistinctSteps_of_parts
  · intro steps he
    cases he
  · intro n hn part hp
    rcases List.mem_cons.mp hn with rfl | hn
    · rcases List.mem_cons.mp hp with rfl | hp
      · exact hstep "cut" "paper"
      · rw [List.mem_singleton.mp hp]
        exact hstep "again" "ink"
    · rw [List.mem_singleton.mp hn] at hp
      rw [List.mem_singleton.mp hp]
      exact hstep "stamp" "ink"

theorem reportsTags_workshop : workshop.block.HasDistinctSteps ∧
    workshop.faults standardCap =
      [.reentrantTag "print/recovery/again" "ink",.tagOrderConflict ["ink","paper"]] ∧
    workshop.ReportsTags standardCap :=
  ⟨workshop_hasDistinctSteps,by decide,reportsTags standardCap workshop workshop_hasDistinctSteps⟩

end Definition

end TaskGraph
