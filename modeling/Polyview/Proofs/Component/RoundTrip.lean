import Polyview.Backend.Table
import Polyview.Proofs.Template.Recursion
import Polyview.Unit.Extraction

/-! # Components through JSON

A description is read back from its JSON form as it was written, so nothing that a target writes depends on whether a
component comes from its source or from JSON (`json_round_trip`). A reader looks its fields up by name: it needs that
the names of an object are distinct (`field?_of_mem`), and that each field is read back by its own reader.

Templates hold templates, in lists, in attributes and in callbacks. Their reader is bounded by the size of the JSON
value that it is given, and the forms of the nodes inside a node are smaller than the form of the node. So the
induction is on the bound, for all nodes whose form is within it (`Template.read?_toJson`). -/

namespace Polyview

open List

namespace Json

variable {json : Json} {name : String}

/-- A field of an object with distinct names is found by its name. -/
theorem field?_of_mem {fields : List (String × Json)} (hd : (fields.map Prod.fst).Nodup)
    {field : String × Json} (h : field ∈ fields) : (obj fields).field? field.1 = some field.2 := by
  have hf : fields.find? (fun entry => entry.1 == field.1) = some field := by
    induction fields with
    | nil => cases h
    | cons first rest ih =>
      obtain ⟨hfs, hd⟩ := nodup_cons.mp hd
      rcases mem_cons.mp h with rfl | h
      · exact find?_cons_of_pos (beq_self_eq_true _)
      · have hn : first.1 ≠ field.1 := fun heq => hfs (heq ▸ mem_map_of_mem h)
        rw [find?_cons_of_neg (by simpa using hn), ih hd h]
  rw [field?, hf]
  rfl

theorem strField?_of_field? {value : String} (h : json.field? name = some (.str value)) :
    json.strField? name = some value := by
  rw [strField?, h]
  rfl

theorem optionField?_of_field? {value : Option String} (h : json.field? name = some (ofOption value)) :
    json.optionField? name = some value := by
  rw [optionField?, h]
  cases value <;> rfl

theorem mapM_map {α : Type} {write : α → Json} {read : Json → Option α} {items : List α}
    (h : ∀ item ∈ items, read (write item) = some item) : (items.map write).mapM read = some items := by
  induction items with
  | nil => rfl
  | cons item rest ih =>
    rw [map_cons, mapM_cons, h item (.head _), ih fun other ho => h other (.tail _ ho)]
    rfl

theorem listField?_of_field? {α : Type} {write : α → Json} {read : Json → Option α} {items : List α}
    (hf : json.field? name = some (.arr (items.map write))) (h : ∀ item ∈ items, read (write item) = some item) :
    json.listField? name read = some items := by
  rw [listField?, hf]
  exact mapM_map h

theorem stringsField?_of_field? {values : List String} (h : json.field? name = some (ofStrings values)) :
    json.listField? name str? = some values :=
  listField?_of_field? h fun _ _ => rfl

end Json

theorem bind_of_eq_some {α β : Type} {x : Option α} {a : α} {f : α → Option β} {r : Option β} (h : x = some a)
    (hf : f a = r) : (x >>= f) = r := by
  rw [h]
  exact hf

/-! ### Templates -/

theorem MapEntry.ofJson?_toJson (entry : MapEntry) : MapEntry.ofJson? entry.toJson = some entry := rfl

theorem attributesToJson_eq_map (attributes : List Attribute) :
    attributesToJson attributes = attributes.map Attribute.toJson := by
  induction attributes with
  | nil => rw [attributesToJson, map_nil]
  | cons a rest ih => rw [attributesToJson, ih, map_cons]

theorem templatesToJson_eq_map (nodes : List Template) : templatesToJson nodes = nodes.map Template.toJson := by
  induction nodes with
  | nil => rw [templatesToJson, map_nil]
  | cons node rest ih => rw [templatesToJson, ih, map_cons]

variable {read : Json → Option Template}

theorem AttributeValue.read?_toJson {value : AttributeValue}
    (h : ∀ node, value.markup? = some node → read node.toJson = some node) :
    AttributeValue.read? read value.toJson = some value := by
  cases value with
  | boolean => rw [AttributeValue.toJson]; rfl
  | static text => rw [AttributeValue.toJson]; rfl
  | expression code => rw [AttributeValue.toJson]; rfl
  | objectMap entries code =>
    rw [AttributeValue.toJson]
    refine bind_of_eq_some rfl ?_
    refine bind_of_eq_some rfl ?_
    refine bind_of_eq_some (Json.listField?_of_field? rfl fun entry _ => entry.ofJson?_toJson) ?_
    rfl
  | template node =>
    rw [AttributeValue.toJson]
    refine bind_of_eq_some rfl ?_
    show AttributeValue.template <$> read node.toJson = _
    rw [h node rfl]
    rfl

theorem Attribute.read?_toJson {a : Attribute}
    (h : ∀ node, a.value.markup? = some node → read node.toJson = some node) :
    Attribute.read? read a.toJson = some a := by
  rcases a with ⟨name, value⟩
  rw [Attribute.toJson]
  refine bind_of_eq_some rfl (bind_of_eq_some (AttributeValue.read?_toJson h) rfl)

/-! ### Sizes -/

theorem Json.size_le_of_mem_items {item : Json} {items : List Json} (h : item ∈ items) :
    item.size ≤ sizeItems items := by
  induction items with
  | nil => cases h
  | cons first rest ih =>
    rw [sizeItems]
    rcases mem_cons.mp h with rfl | h
    · omega
    · have := ih h
      omega

theorem size_toJson_pos (node : Template) : 0 < node.toJson.size := by
  cases node <;> rw [Template.toJson, Json.size] <;> omega

theorem size_toJson_markup {a : Attribute} {node : Template} (h : a.value.markup? = some node) :
    node.toJson.size < a.toJson.size := by
  rcases a with ⟨name, value⟩
  cases value with
  | template markup =>
    cases h
    simp only [Attribute.toJson, AttributeValue.toJson, Json.size, Json.sizeFields]
    omega
  | _ => cases h

section

variable {fuel : ℕ} (ih : ∀ node : Template, node.toJson.size ≤ fuel → Template.read? fuel node.toJson = some node)
include ih

theorem read?_attributes (attributes : List Attribute) (h : Json.sizeItems (attributesToJson attributes) ≤ fuel) :
    ∀ a ∈ attributes, Attribute.read? (Template.read? fuel) a.toJson = some a := by
  intro a ha
  refine Attribute.read?_toJson fun node hn => ih node ?_
  have hs : a.toJson.size ≤ Json.sizeItems (attributesToJson attributes) :=
    Json.size_le_of_mem_items (attributesToJson_eq_map attributes ▸ mem_map_of_mem ha)
  have := size_toJson_markup hn
  omega

theorem read?_templates (nodes : List Template) (h : Json.sizeItems (templatesToJson nodes) ≤ fuel) :
    ∀ node ∈ nodes, Template.read? fuel node.toJson = some node := by
  intro node hn
  have hs : node.toJson.size ≤ Json.sizeItems (templatesToJson nodes) :=
    Json.size_le_of_mem_items (templatesToJson_eq_map nodes ▸ mem_map_of_mem hn)
  exact ih node (by omega)

end

/-- **A template is read back from its JSON form,** at any bound that is not below the size of the form. -/
theorem Template.read?_toJson {fuel : ℕ} {node : Template} (h : node.toJson.size ≤ fuel) :
    Template.read? fuel node.toJson = some node := by
  induction fuel generalizing node with
  | zero =>
    have := size_toJson_pos node
    omega
  | succ fuel ih =>
    cases node with
    | element tag attributes children =>
      simp only [Template.toJson, Json.size, Json.sizeFields] at h
      have ha := read?_attributes (fun _ => ih) attributes (by omega)
      have hc := read?_templates (fun _ => ih) children (by omega)
      rw [Template.toJson, attributesToJson_eq_map, templatesToJson_eq_map]
      refine bind_of_eq_some rfl (bind_of_eq_some rfl ?_)
      refine bind_of_eq_some (Json.listField?_of_field? rfl ha) ?_
      exact bind_of_eq_some (Json.listField?_of_field? rfl hc) rfl
    | selfClosing tag attributes =>
      simp only [Template.toJson, Json.size, Json.sizeFields] at h
      have ha := read?_attributes (fun _ => ih) attributes (by omega)
      rw [Template.toJson, attributesToJson_eq_map]
      refine bind_of_eq_some rfl (bind_of_eq_some rfl ?_)
      exact bind_of_eq_some (Json.listField?_of_field? rfl ha) rfl
    | fragment children =>
      simp only [Template.toJson, Json.size, Json.sizeFields] at h
      have hc := read?_templates (fun _ => ih) children (by omega)
      rw [Template.toJson, templatesToJson_eq_map]
      refine bind_of_eq_some rfl ?_
      exact congrArg (Option.map Template.fragment) (Json.listField?_of_field? rfl hc)
    | text value =>
      rw [Template.toJson]
      rfl
    | expression code =>
      rw [Template.toJson]
      rfl
    | callback code params body =>
      simp only [Template.toJson, Json.size, Json.sizeFields] at h
      have hb : Template.read? fuel body.toJson = some body := ih (by omega)
      rw [Template.toJson]
      refine bind_of_eq_some rfl (bind_of_eq_some rfl ?_)
      refine bind_of_eq_some (Json.listField?_of_field? rfl fun _ _ => rfl) ?_
      exact bind_of_eq_some hb rfl

theorem Template.ofJson?_toJson (node : Template) : Template.ofJson? node.toJson = some node :=
  Template.read?_toJson (Nat.le_refl _)

theorem Attribute.ofJson?_toJson (a : Attribute) : Attribute.ofJson? a.toJson = some a :=
  Attribute.read?_toJson fun node _ => node.ofJson?_toJson

/-! ### Imports and members -/

theorem ImportedName.ofJson?_toJson (entry : ImportedName) : ImportedName.ofJson? entry.toJson = some entry := rfl

theorem Import.ofJson?_toJson (record : Import) : Import.ofJson? record.toJson = some record := by
  have hd : record.toJson.optionField? "default" = some record.defaultName := Json.optionField?_of_field? rfl
  have hw : record.toJson.optionField? "namespace" = some record.namespaceName := Json.optionField?_of_field? rfl
  have hn : record.toJson.listField? "named" ImportedName.ofJson? = some record.named :=
    Json.listField?_of_field? rfl fun entry _ => entry.ofJson?_toJson
  rw [Import.ofJson?, hd, hw, hn]
  rfl

theorem PropField.ofJson?_toJson (m : PropField) : PropField.ofJson? m.toJson = some m := by
  have ht : m.toJson.optionField? "typeAnnotation" = some m.typeText := Json.optionField?_of_field? rfl
  have hd : m.toJson.optionField? "defaultValue" = some m.defaultValue := Json.optionField?_of_field? rfl
  have hc : m.toJson.listField? "comments" Json.str? = some m.comments := Json.stringsField?_of_field? rfl
  rw [PropField.ofJson?, ht, hd, hc]
  rfl

theorem StateField.ofJson?_toJson (m : StateField) : StateField.ofJson? m.toJson = some m := by
  have ht : m.toJson.optionField? "typeAnnotation" = some m.typeText := Json.optionField?_of_field? rfl
  have hi : m.toJson.optionField? "initializer" = some m.initializer := Json.optionField?_of_field? rfl
  have hc : m.toJson.listField? "comments" Json.str? = some m.comments := Json.stringsField?_of_field? rfl
  rw [StateField.ofJson?, ht, hi, hc]
  rfl

theorem ComputedField.ofJson?_toJson (m : ComputedField) : ComputedField.ofJson? m.toJson = some m := by
  have hr : m.toJson.optionField? "returnType" = some m.returnType := Json.optionField?_of_field? rfl
  have hc : m.toJson.listField? "comments" Json.str? = some m.comments := Json.stringsField?_of_field? rfl
  rw [ComputedField.ofJson?, hr, hc]
  rfl

theorem EventField.ofJson?_toJson (m : EventField) : EventField.ofJson? m.toJson = some m := by
  have hp : m.toJson.optionField? "payloadType" = some m.payloadType := Json.optionField?_of_field? rfl
  have hc : m.toJson.listField? "comments" Json.str? = some m.comments := Json.stringsField?_of_field? rfl
  rw [EventField.ofJson?, hp, hc]
  rfl

theorem RefField.ofJson?_toJson (m : RefField) : RefField.ofJson? m.toJson = some m := by
  have ht : m.toJson.optionField? "typeAnnotation" = some m.typeText := Json.optionField?_of_field? rfl
  have hc : m.toJson.listField? "comments" Json.str? = some m.comments := Json.stringsField?_of_field? rfl
  rw [RefField.ofJson?, ht, hc]
  rfl

theorem ProviderField.ofJson?_toJson (m : ProviderField) : ProviderField.ofJson? m.toJson = some m := by
  have ht : m.toJson.optionField? "typeAnnotation" = some m.typeText := Json.optionField?_of_field? rfl
  have hc : m.toJson.listField? "comments" Json.str? = some m.comments := Json.stringsField?_of_field? rfl
  rw [ProviderField.ofJson?, ht, hc]
  rfl

theorem InjectField.ofJson?_toJson (m : InjectField) : InjectField.ofJson? m.toJson = some m := by
  have hc : m.toJson.listField? "comments" Json.str? = some m.comments := Json.stringsField?_of_field? rfl
  rw [InjectField.ofJson?, hc]
  rfl

theorem Method.ofJson?_toJson (m : Method) : Method.ofJson? m.toJson = some m := by
  have hr : m.toJson.optionField? "returnType" = some m.returnType := Json.optionField?_of_field? rfl
  have hc : m.toJson.listField? "comments" Json.str? = some m.comments := Json.stringsField?_of_field? rfl
  rw [Method.ofJson?, hr, hc]
  rfl

theorem Lifecycle.ofJson?_toJson (m : Lifecycle) : Lifecycle.ofJson? m.toJson = some m := by
  have hc : m.toJson.listField? "comments" Json.str? = some m.comments := Json.stringsField?_of_field? rfl
  rw [Lifecycle.ofJson?, hc]
  rfl

theorem Lifecycle.optionField?_of_field? {json : Json} {name : String} {m : Option Lifecycle}
    (h : json.field? name = some (Lifecycle.optionToJson m)) : Lifecycle.optionField? json name = some m := by
  rw [Lifecycle.optionField?, h]
  cases m with
  | none => rfl
  | some m => exact congrArg (Option.map some) m.ofJson?_toJson

/-! ### Units -/

/-- A component is read from any object that holds its fields, whatever else the object holds. -/
theorem Component.ofJson?_of_fields {json : Json} {c : Component}
    (h : ∀ field ∈ c.fields, json.field? field.1 = some field.2) : Component.ofJson? json = some c := by
  simp only [Component.fields, forall_mem_cons] at h
  obtain ⟨hn, hs, hsy, ht, hp, hst, hc, he, hre, hpr, hin, hm, hoi, ho, hsl, hi, hd, -⟩ := h
  have hr : (json.field? "template").bind Template.ofJson? = some c.template := by
    rw [ht]
    exact c.template.ofJson?_toJson
  rw [Component.ofJson?, Json.strField?_of_field? hn, Json.optionField?_of_field? hs, Json.strField?_of_field? hsy, hr,
    Json.listField?_of_field? hp fun m _ => m.ofJson?_toJson,
    Json.listField?_of_field? hst fun m _ => m.ofJson?_toJson,
    Json.listField?_of_field? hc fun m _ => m.ofJson?_toJson,
    Json.listField?_of_field? he fun m _ => m.ofJson?_toJson,
    Json.listField?_of_field? hre fun m _ => m.ofJson?_toJson,
    Json.listField?_of_field? hpr fun m _ => m.ofJson?_toJson,
    Json.listField?_of_field? hin fun m _ => m.ofJson?_toJson,
    Json.listField?_of_field? hm fun m _ => m.ofJson?_toJson,
    Lifecycle.optionField?_of_field? hoi, Lifecycle.optionField?_of_field? ho,
    Json.stringsField?_of_field? hsl, Json.listField?_of_field? hi fun record _ => record.ofJson?_toJson,
    Json.stringsField?_of_field? hd]
  rfl

theorem Component.ofJson?_toJson (c : Component) : Component.ofJson? c.toJson = some c :=
  Component.ofJson?_of_fields fun _ hf => Json.field?_of_mem (by simp [Component.fields]) hf

/-- A provider class is read from any object that holds its fields, whatever else the object holds. -/
theorem ProviderClass.ofJson?_of_fields {json : Json} {p : ProviderClass}
    (h : ∀ field ∈ p.fields, json.field? field.1 = some field.2) : ProviderClass.ofJson? json = some p := by
  simp only [ProviderClass.fields, forall_mem_cons] at h
  obtain ⟨hn, hs, hi, hd, -⟩ := h
  rw [ProviderClass.ofJson?, Json.strField?_of_field? hn, Json.strField?_of_field? hs,
    Json.listField?_of_field? hi fun record _ => record.ofJson?_toJson,
    Json.stringsField?_of_field? hd]
  rfl

theorem SourceUnit.ofJson?_toJson (unit : SourceUnit) : SourceUnit.ofJson? unit.toJson = some unit := by
  cases unit with
  | component c =>
    -- the tag stands among the fields of the component, so the object is not its JSON form
    refine bind_of_eq_some rfl (congrArg (Option.map SourceUnit.component) (Component.ofJson?_of_fields ?_))
    intro field hf
    exact Json.field?_of_mem (by simp [Component.fields]) (.tail _ hf)
  | provider p =>
    refine bind_of_eq_some rfl (congrArg (Option.map SourceUnit.provider) (ProviderClass.ofJson?_of_fields ?_))
    intro field hf
    exact Json.field?_of_mem (by simp [ProviderClass.fields]) (.tail _ hf)

/-! ### Tags -/

/-- The tag of a node in JSON. -/
def Template.kind : Template → String
  | .element .. => "element"
  | .selfClosing .. => "self-closing-element"
  | .fragment _ => "fragment"
  | .text _ => "text"
  | .expression _ => "expression"
  | .callback .. => "expression"

/-- The tag of the value of an attribute in JSON. -/
def AttributeValue.kind : AttributeValue → String
  | .boolean => "boolean"
  | .static _ => "static"
  | .expression _ => "expression"
  | .objectMap .. => "objectMap"
  | .template _ => "template"

theorem Template.strField?_toJson (node : Template) : node.toJson.strField? "type" = some node.kind := by
  cases node <;> rw [Template.toJson] <;> rfl

theorem AttributeValue.strField?_toJson (value : AttributeValue) :
    value.toJson.strField? "kind" = some value.kind := by
  cases value <;> rw [AttributeValue.toJson] <;> rfl

/-- The content stands beside the tag, and only a value without content has none. -/
theorem AttributeValue.field?_toJson_eq_none (value : AttributeValue) :
    value.toJson.field? "value" = none ↔ value = .boolean := by
  cases value <;> rw [AttributeValue.toJson] <;> simp [Json.field?]

theorem Template.field?_toJson_eq_null {node : Template} (h : node.kind = "expression") :
    node.toJson.field? "callback" = some .null ↔ ∃ code, node = .expression code := by
  cases node with
  | expression code => rw [Template.toJson]; simp [Json.field?]
  | callback code params body => rw [Template.toJson]; simp [Json.field?]
  | _ => simp [Template.kind] at h

/-- **Descriptions are read back from JSON.** Units, components, templates, attributes and imports come back as they
were written, in the tagged format of templates. So a target writes the same file, or fails in the same way, for a
component from a source and for what is read back from its JSON form. -/
theorem json_round_trip : (∀ unit : SourceUnit, SourceUnit.ofJson? unit.toJson = some unit) ∧
      (∀ c : Component, Component.ofJson? c.toJson = some c) ∧
      (∀ node : Template, Template.ofJson? node.toJson = some node) ∧
      (∀ a : Attribute, Attribute.ofJson? a.toJson = some a) ∧
      (∀ record : Import, Import.ofJson? record.toJson = some record) ∧
      (∀ node : Template, node.toJson.strField? "type" = some node.kind ∧ (node.kind = "expression" →
        (node.toJson.field? "callback" = some .null ↔ ∃ code, node = .expression code))) ∧
      (∀ value : AttributeValue, value.toJson.strField? "kind" = some value.kind ∧
        (value.toJson.field? "value" = none ↔ value = .boolean)) ∧
      ∀ text c, extractComponent text = .ok c →
        ∀ target : Target, (Component.ofJson? c.toJson).map target.render = some (target.render c) := by
  refine ⟨SourceUnit.ofJson?_toJson, Component.ofJson?_toJson, Template.ofJson?_toJson, Attribute.ofJson?_toJson,
    Import.ofJson?_toJson, fun node => ⟨node.strField?_toJson, Template.field?_toJson_eq_null⟩,
    fun value => ⟨value.strField?_toJson, value.field?_toJson_eq_none⟩, fun text c _ target => ?_⟩
  rw [c.ofJson?_toJson]
  rfl

/-- A list with markup in an attribute and in a callback. -/
def listSource : String :=
  "import\x7bComponent as C\x7dfrom\"@tessera/core\";
  @C()class A\x7brender()\x7breturn<Show when=\x7bon\x7d fallback=\x7b<i/>\x7d>
  <For each=\x7bxs\x7d>\x7bx=><b key=\x7bx\x7d/>\x7d</For></Show>\x7d\x7d"

/-- The list comes back with the markup of its fallback and of its items. -/
theorem json_round_trip_list : ∃ c, extractComponent listSource = .ok c ∧ Component.ofJson? c.toJson = some c ∧
      ∀ target : Target, (Component.ofJson? c.toJson).map target.render = some (target.render c) := by
  have ho : (extractComponent listSource).isOk := by decide +kernel
  cases h : extractComponent listSource with
  | error error => rw [h] at ho; cases ho
  | ok c => exact ⟨c, rfl, json_round_trip.2.1 c, json_round_trip.2.2.2.2.2.2.2 listSource c h⟩

end Polyview
