import TaggedUnion.Proofs.Schema.Permutation
import TaggedUnion.Proofs.Schema.Closure

/-!
# The order of a schema

The types of a schema stand in a fixed order: the built-in scalars, the objects and enums of the
document, and its unions in the order in which a depth-first walk over their candidates leaves them.

* `PostOrder`: the order in which a depth-first walk leaves the nodes of a graph, said of any graph.
* `PostOrder.functional`, `PostOrder.mem`, `PostOrder.ordered`: there is one such order at most, it
  holds the nodes that are visited, and each node comes after those that it leads to.
* `ensureAll_postOrder`: the walk over declared unions adds them in this order.
* `order_of_build`: the types and unions of a schema in order.
-/

namespace TaggedUnion

/-! ## Depth-first walks -/

/-- The order in which a depth-first walk leaves the nodes of a graph. Nodes are visited in turn:
one that has been left before is passed over, and any other is left after all that it leads to. -/
inductive PostOrder {α : Type} (next : α → List α) : List α → List α → List α → Prop where
  | nil {done : List α} : PostOrder next done [] done
  | pass {done rest order : List α} {node : α} (hdone : node ∈ done)
    (hrest : PostOrder next done rest order) : PostOrder next done (node :: rest) order
  | visit {done below rest order : List α} {node : α} (hnew : node ∉ done)
    (hbelow : PostOrder next done (next node) below)
    (hrest : PostOrder next (below ++ [node]) rest order) : PostOrder next done (node :: rest) order

/-- Each node comes after those that it leads to. -/
def Ordered {α : Type} (next : α → List α) (order : List α) : Prop :=
  ∀ before node after, order = before ++ node :: after → ∀ other ∈ next node, other ∈ before

section Walks

variable {α : Type} {next : α → List α} {done nodes order : List α}

theorem Ordered.nil : Ordered next [] := by
  intro before node after h
  simp at h

theorem Ordered.snoc {node : α} (h : Ordered next order)
    (hnext : ∀ other ∈ next node, other ∈ order) : Ordered next (order ++ [node]) := by
  intro before last after hsplit
  rcases List.eq_nil_or_concat after with rfl | ⟨after, final, rfl⟩
  · obtain ⟨rfl, hlast⟩ := List.append_inj' hsplit rfl
    cases hlast
    exact hnext
  · have hsplit : order ++ [node] = (before ++ last :: after) ++ [final] := by simpa using hsplit
    obtain ⟨rfl, -⟩ := List.append_inj' hsplit rfl
    exact h before last after rfl

namespace PostOrder

/-- There is one order at most. -/
theorem functional {order' : List α} (h : PostOrder next done nodes order)
    (h' : PostOrder next done nodes order') : order = order' := by
  induction h generalizing order' with
  | nil =>
    cases h'
    rfl
  | pass hdone _ ih =>
    cases h' with
    | pass _ hrest => exact ih hrest
    | visit hnew => exact absurd hdone hnew
  | visit hnew _ _ ihbelow ihrest =>
    cases h' with
    | pass hdone => exact absurd hdone hnew
    | visit _ hbelow hrest =>
      obtain rfl := ihbelow hbelow
      exact ihrest hrest

theorem append {more order' : List α} (h : PostOrder next done nodes order)
    (h' : PostOrder next order more order') : PostOrder next done (nodes ++ more) order' := by
  induction h with
  | nil => exact h'
  | pass hdone _ ih => exact .pass hdone (ih h')
  | visit hnew hbelow _ _ ihrest => exact .visit hnew hbelow (ihrest h')

/-- What has been left stays left. -/
theorem mem_of_done (h : PostOrder next done nodes order) {node : α} (hmem : node ∈ done) :
    node ∈ order := by
  induction h with
  | nil => exact hmem
  | pass _ _ ih => exact ih hmem
  | visit _ _ _ ihbelow ihrest => exact ihrest (List.mem_append_left _ (ihbelow hmem))

/-- All nodes that are to be visited are left in the end. -/
theorem mem (h : PostOrder next done nodes order) : ∀ node ∈ nodes, node ∈ order := by
  induction h with
  | nil => simp
  | pass hdone hrest ih => exact List.forall_mem_cons.mpr ⟨hrest.mem_of_done hdone, ih⟩
  | visit _ _ hrest _ ihrest =>
    exact List.forall_mem_cons.mpr ⟨hrest.mem_of_done (by simp), ihrest⟩

/-- Each node is left after those that it leads to. -/
theorem ordered (h : PostOrder next done nodes order) (hdone : Ordered next done) :
    Ordered next order := by
  induction h with
  | nil => exact hdone
  | pass _ _ ih => exact ih hdone
  | visit _ hbelow _ ihbelow ihrest => exact ihrest ((ihbelow hdone).snoc hbelow.mem)

end PostOrder

end Walks

/-! ## Declarations -/

/-- The union of a declaration, if it declares one. -/
def TypeDef.union? : TypeDef → Option UnionDef
  | union declaration => some declaration
  | _ => none

namespace Document

/-- The declared unions in order. -/
def unionDefs (document : Document) : List UnionDef := document.types.filterMap TypeDef.union?

/-- The declared objects and enums in order. -/
def otherDefs (document : Document) : List TypeDef :=
  document.types.filter fun declaration => declaration.union?.isNone

/-- The unions that the union of a given name lists, in order. -/
def listedUnions (declared : List UnionDef) (name : String) : List String :=
  match declared.find? fun declaration => declaration.name = name with
  | some declaration =>
    declaration.inputTypes.names.filter fun listed => listed ∈ declared.map UnionDef.name
  | none => []

/-- The names of the unions that are known by name, in order. -/
def unionNames (schema : Schema) : List String := schema.unions.map UnionType.name

/-- Objects and enums are collected in the order of the document, and so are unions. -/
theorem Collects.split {declarations : List TypeDef} {types : List NamedType}
    {unions : List UnionDef} (h : Collects declarations types unions) :
    List.Forall₂ MakesType
        (declarations.filter fun declaration => declaration.union?.isNone) types ∧
      unions = declarations.filterMap TypeDef.union? := by
  induction h with
  | nil => exact ⟨.nil, rfl⟩
  | @type declaration _ _ _ _ hmakes _ ih =>
    have hother : declaration.union? = none := by cases hmakes <;> rfl
    rw [List.filter_cons_of_pos (by simp [hother]), List.filterMap_cons_none hother]
    exact ⟨.cons hmakes ih.1, ih.2⟩
  | union _ ih => exact ⟨ih.1, congrArg _ ih.2⟩

theorem listedUnions_eq {declared : List UnionDef} (hdistinct : (declared.map UnionDef.name).Nodup)
    {declaration : UnionDef} (hmem : declaration ∈ declared) :
    listedUnions declared declaration.name =
      declaration.inputTypes.names.filter fun listed => listed ∈ declared.map UnionDef.name := by
  unfold listedUnions
  cases hfind : declared.find? fun other => other.name = declaration.name with
  | none => simpa using List.find?_eq_none.mp hfind declaration hmem
  | some other =>
    have hname : other.name = declaration.name := by simpa using List.find?_some hfind
    rw [List.inj_on_of_nodup_map hdistinct (List.mem_of_find?_eq_some hfind) hmem hname]

/-! ## The walk over declared unions -/

/-- Behind the types that were known before stand the unions that are known by name, in the same
order. -/
def Appends (known : Registry) (schema : Schema) : Prop :=
  schema.registry.types = known.types ++ schema.unions.map .union

section Walk

variable {declared : List UnionDef} {known : Registry}

namespace Appends

variable {schema : Schema}

theorem names_eq (h : Appends known schema) :
    schema.registry.names = known.names ++ unionNames schema := by
  rw [Registry.names, h, List.map_append, List.map_map]
  rfl

theorem mem_names (h : Appends known schema) {name : String} :
    name ∈ schema.registry.names ↔ name ∈ known.names ∨ name ∈ unionNames schema := by
  rw [h.names_eq, List.mem_append]

/-- A union of a new name is put behind the others. -/
theorem unions_withUnion (h : Appends known schema) {union : UnionType}
    (hnew : union.name ∉ schema.registry.names) :
    (withUnion schema union).unions = schema.unions ++ [union] := by
  refine insert_eq_append fun other hmem hname => hnew (h.mem_names.mpr (.inr ?_))
  exact hname ▸ List.mem_map_of_mem hmem

theorem unionNames_withUnion (h : Appends known schema) {union : UnionType}
    (hnew : union.name ∉ schema.registry.names) :
    unionNames (withUnion schema union) = unionNames schema ++ [union.name] := by
  rw [unionNames, h.unions_withUnion hnew, List.map_append]
  rfl

theorem add (h : Appends known schema) {union : UnionType}
    (hnew : union.name ∉ schema.registry.names) : Appends known (withUnion schema union) := by
  rw [Appends, h.unions_withUnion hnew, List.map_append, ← List.append_assoc, ← h]
  rfl

end Appends

theorem Grows.appends {schema schema' : Schema} (h : Grows declared schema schema')
    (hschema : Appends known schema) : Appends known schema' := by
  induction h with
  | refl => exact hschema
  | add _ _ _ _ hnew ih => exact ih.add hnew

/-- The walk to one name after the other adds unions in the order of the walks to each. -/
theorem ensureAll_postOrder {remaining : List UnionDef} {visiting : List String}
    {next : String → List String}
    (hensure : ∀ {name : String} {schema schema' : Schema} {type : NamedType},
      Appends known schema → ensure remaining visiting name schema = .ok (type, schema') →
        PostOrder next (unionNames schema)
          ([name].filter fun listed => listed ∈ declared.map UnionDef.name) (unionNames schema'))
    {names : List String} {schema schema' : Schema} {types : List NamedType}
    (hschema : Appends known schema)
    (h : ensureAll remaining visiting names schema = .ok (types, schema')) :
    PostOrder next (unionNames schema)
      (names.filter fun listed => listed ∈ declared.map UnionDef.name) (unionNames schema') := by
  induction names generalizing schema types with
  | nil =>
    obtain ⟨-, rfl⟩ := ensureAll_nil_eq_ok h
    exact .nil
  | cons name rest ih =>
    obtain ⟨type, between, others, hfirst, hrest, -⟩ := ensureAll_cons_eq_ok h
    have hgrows := (ensure_grows hfirst).1
    rw [← List.singleton_append, List.filter_append]
    exact (hensure hschema hfirst).append (ih (hgrows.appends hschema) hrest)

/-- **The walk over declared unions is depth-first.** The unions that it adds are those that it has
not passed before, in post-order. -/
theorem ensure_postOrder (hdistinct : (declared.map UnionDef.name).Nodup)
    (hdisjoint : ∀ declaration ∈ declared, declaration.name ∉ known.names)
    {remaining : List UnionDef} (hsub : ∀ declaration ∈ remaining, declaration ∈ declared)
    {visiting : List String} {name : String} {schema schema' : Schema} {type : NamedType}
    (hschema : Appends known schema)
    (h : ensure remaining visiting name schema = .ok (type, schema')) :
    PostOrder (listedUnions declared) (unionNames schema)
      ([name].filter fun listed => listed ∈ declared.map UnionDef.name) (unionNames schema') := by
  rcases ensure_eq_ok h with
    ⟨hget, rfl⟩ | ⟨hnew, declaration, hfind, types, candidates, hall, hadd⟩
  · -- A registered name is passed over if it is a union, and is no node of the graph otherwise.
    by_cases hdeclared : name ∈ declared.map UnionDef.name
    · obtain ⟨declaration, hmem, rfl⟩ := List.mem_map.mp hdeclared
      obtain ⟨hregistered, hname⟩ := Registry.get?_some hget
      have hnames : declaration.name ∈ schema'.registry.names :=
        hname ▸ List.mem_map_of_mem hregistered
      rw [List.filter_cons_of_pos (by simpa using hdeclared)]
      exact .pass ((hschema.mem_names.mp hnames).resolve_left (hdisjoint declaration hmem)) .nil
    · rw [List.filter_cons_of_neg (by simpa using hdeclared)]
      exact .nil
  · have hlt := length_others_lt hfind
    obtain ⟨hremains, rfl⟩ := find?_name hfind
    have hmem := hsub declaration hremains
    have hsub' : ∀ other ∈ others declaration.name remaining, other ∈ declared :=
      fun other hother => hsub other (mem_others.mp hother).1
    obtain ⟨hgrows, hresolves⟩ := ensureAll_grows (fun h => ensure_grows h) hall
    obtain ⟨-, hadded, -, rfl⟩ := (addDeclared_eq_ok_iff hresolves.map_name).mp hadd
    -- The walks to the candidates are shorter: the union itself no longer remains.
    have hbelow := ensureAll_postOrder
      (fun happends h => ensure_postOrder hdistinct hdisjoint hsub' happends h) hschema hall
    rw [← listedUnions_eq hdistinct hmem] at hbelow
    rw [List.filter_cons_of_pos (by simpa using List.mem_map_of_mem hmem),
      (hgrows.appends hschema).unionNames_withUnion hadded]
    exact .visit (fun hleft => hnew (hschema.mem_names.mpr (.inr hleft))) hbelow .nil
termination_by remaining.length

end Walk

/-! ## The schema of a document -/

theorem keys?_unionOf {declaration : UnionDef} {types : List NamedType}
    (hnames : types.map NamedType.name = declaration.inputTypes.names) :
    (declaration.unionOf types).lookup.keys? = some declaration.inputTypes.keys := by
  have hlength := CandidateNames.length_keys hnames
  have hkeys : ((declaration.inputTypes.keys.zip types).map
      (tableEntry declaration.typeKey.isNone)).map Prod.fst = declaration.inputTypes.keys := by
    rw [List.map_map]
    exact List.map_fst_zip hlength.le
  exact congrArg some hkeys

/-- A known union is registered under its name, and has the keys of its declaration in order. -/
theorem keys?_of_build {document : Document} {schema : Schema}
    (hbuild : document.build = .ok schema) {union : UnionType} (hmem : union ∈ schema.unions) :
    schema.registry.get? union.name = some (.union union) ∧
      ∃ declaration, .union declaration ∈ document.types ∧ declaration.name = union.name ∧
        union.lookup.keys? = some declaration.inputTypes.keys := by
  have hregistered := (mem_unions_iff_of_build hbuild).mp hmem
  refine ⟨(mem_types_iff_get? hbuild).mp hregistered, ?_⟩
  rcases registered_of_build hbuild hregistered with
    ⟨_, ⟨⟩⟩ | ⟨_, -, ⟨⟩⟩ | ⟨declaration, hdeclared, types, htypes, hunion⟩
  cases hunion
  exact ⟨declaration, hdeclared, rfl, keys?_unionOf htypes.map_name⟩

/-- **The order of a schema.** The registry of a document has the built-in scalars in front, then
the types that its objects and enums make in the order of the document, and then its unions. Every
declared union is there once, and they stand in the post-order of a depth-first walk over candidates
from the declared unions in turn, so that a union comes after all unions that it lists. The unions
known by name are the same in the same order, each the one that is registered under its name, with
the keys of its candidates as they are written. -/
theorem order_of_build {document : Document} {schema : Schema}
    (hbuild : document.build = .ok schema) :
    (∃ types, List.Forall₂ MakesType document.otherDefs types ∧
      schema.registry.types =
        Builtin.all.map .builtin ++ types ++ schema.unions.map .union) ∧
    (unionNames schema).Nodup ∧
    (unionNames schema).Perm (document.unionDefs.map UnionDef.name) ∧
    (∀ order, PostOrder (listedUnions document.unionDefs) []
      (document.unionDefs.map UnionDef.name) order ↔ order = unionNames schema) ∧
    Ordered (listedUnions document.unionDefs) (unionNames schema) ∧
    ∀ union ∈ schema.unions, schema.registry.get? union.name = some (.union union) ∧
      ∃ declaration, .union declaration ∈ document.types ∧ declaration.name = union.name ∧
        union.lookup.keys? = some declaration.inputTypes.keys := by
  obtain ⟨_, unions, built, hcollect, hdisjoint, hensure, -⟩ := build_eq_ok_iff.mp hbuild
  obtain ⟨types, hcollects, rfl, -, -, hdistinct⟩ := collect_builtins_iff.mp hcollect
  obtain ⟨hmade, rfl⟩ := hcollects.split
  have hstart : Appends (afterBuiltins types) ⟨afterBuiltins types, []⟩ := by simp [Appends]
  have hgrows := (ensureAll_grows (fun h => ensure_grows h) hensure).1
  have happends := hgrows.appends hstart
  have horder := ensureAll_postOrder
    (fun happends h => ensure_postOrder hdistinct hdisjoint (fun _ h => h) happends h) hstart
    hensure
  rw [List.filter_eq_self.mpr (by simp)] at horder
  have hnodup : (unionNames schema).Nodup :=
    (List.nodup_append.mp (happends.names_eq ▸ nodup_names_of_build hbuild)).2.1
  refine ⟨⟨types, hmade, happends⟩, hnodup, ?_, fun order => ?_, horder.ordered .nil,
    fun union => keys?_of_build hbuild⟩
  · refine (List.perm_ext_iff_of_nodup hnodup hdistinct).mpr fun name => ⟨fun hname => ?_, ?_⟩
    · obtain ⟨union, hunion, rfl⟩ := List.mem_map.mp hname
      obtain ⟨-, declaration, hdeclared, hsame, -⟩ := keys?_of_build hbuild hunion
      exact hsame ▸ List.mem_map_of_mem (hcollects.mem_unions.mpr hdeclared)
    · exact horder.mem name
  · constructor
    · exact fun h => h.functional horder
    · rintro rfl
      exact horder

/-- Feeds of stories and clips, which both hold media. Each union is declared before the ones that
it lists. -/
def feedDocument : Document :=
  ⟨[.union ⟨"F", none, none, .byName ["S", "C"]⟩,
    .union ⟨"S", none, none, .byName ["M"]⟩,
    .enum ⟨"E", none, []⟩,
    .union ⟨"C", none, none, .byName ["M"]⟩,
    .union ⟨"M", none, none, .byName ["ID"]⟩]⟩

/-- The schema of feeds. -/
def feedSchema : Schema :=
  let media := UnionDef.unionOf ⟨"M", none, none, .byName ["ID"]⟩ [.builtin .id]
  let stories := UnionDef.unionOf ⟨"S", none, none, .byName ["M"]⟩ [.union media]
  let clips := UnionDef.unionOf ⟨"C", none, none, .byName ["M"]⟩ [.union media]
  let feeds := UnionDef.unionOf ⟨"F", none, none, .byName ["S", "C"]⟩ [.union stories, .union clips]
  let unions : List UnionType := [media, stories, clips, feeds]
  let types : List NamedType := .enum ⟨"E", none, []⟩ :: unions.map .union
  ⟨⟨Builtin.all.map .builtin ++ types⟩, unions⟩

theorem build_feedDocument : feedDocument.build = .ok feedSchema := by
  cbv

/-- Media are built once, for stories, and are passed over for clips. -/
theorem order_of_build_feed : PostOrder (listedUnions feedDocument.unionDefs) []
    ["F", "S", "C", "M"] ["M", "S", "C", "F"] := by
  have hdeclared : feedDocument.unionDefs.map UnionDef.name = ["F", "S", "C", "M"] := by
    rfl
  obtain ⟨-, -, -, horder, -⟩ := order_of_build build_feedDocument
  rw [← hdeclared]
  exact (horder _).mpr (by rfl)

end Document

end TaggedUnion
