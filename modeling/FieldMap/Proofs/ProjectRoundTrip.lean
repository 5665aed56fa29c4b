import FieldMap.Project
import FieldMap.Proofs.DecodedAttributes
import FieldMap.Proofs.RecordRoundTrip

/-!
Projects, mapping sets and their parts are read back from what is written for them. What was read
once is in a form that passes its own checks again: names are trimmed, an expression is not blank, and
a count fits its width. So whatever could be read is written as a value that is read as the same.
-/

namespace FieldMap

open Json (Decoder Independent Member Origin ReadsAs)

namespace Text

theorem allBlank_trim {t : Text} (h : ¬ allBlank t = true) : ¬ allBlank (trim t) = true := by
  rw [← trim_eq_nil_iff, trim_trim, trim_eq_nil_iff]
  exact h

theorem nonBlank?_idem {t s : Text} (h : nonBlank? t = some s) : nonBlank? s = some s := by
  unfold nonBlank? at h ⊢
  simp only at h ⊢
  split at h
  · cases h
  · next some =>
    cases h
    rw [trim_trim, if_neg some]

end Text

namespace Attribute

theorem given_idem {x : Text} {x? : Option Text} (h : given x? = some x) : given (some x) = some x := by
  have ⟨_, visible⟩ := Option.filter_eq_some_iff.mp h
  exact Option.filter_eq_some_iff.mpr ⟨rfl, visible⟩

def Sound (a : Attribute) : Prop :=
  ofLoose a.toLoose = .ok a

theorem sound_of_ofLoose {raw : Loose} {a : Attribute} (h : ofLoose raw = .ok a) : a.Sound := by
  unfold ofLoose at h
  split at h
  · cases h
  · next named =>
    have named' := Text.allBlank_trim named
    split at h
    · next x _ _ visible =>
      cases h
      simp only [Sound, ofLoose, toLoose, if_neg named', given_idem visible, Text.trim_trim]
    · split at h
      · next name found =>
        cases h
        obtain ⟨value, _, some⟩ := Option.bind_eq_some_iff.mp found
        have again := Text.nonBlank?_idem some
        simp only [Sound, ofLoose, toLoose, if_neg named', Text.trim_trim, Option.bind_some, again]
        rfl
      · cases h
    · cases h
      simp only [Sound, ofLoose, toLoose, if_neg named', Text.trim_trim]
      rfl
    · cases h

theorem sound_of_decode {origin : Origin} {v : Json} {a : Attribute}
    (h : decode origin v = .ok a) : a.Sound := by
  obtain ⟨raw, e⟩ := exists_loose h
  exact sound_of_ofLoose e

theorem independent_table (raw : Loose) : Independent table ⟨[], none, false, false, none⟩ raw :=
  ⟨by decide, by simp [table], by simp [table]⟩

theorem readsAs_loose (raw : Loose) (origin : Origin) :
    ReadsAs (Json.record "RawAttributeSpec" table ⟨[], none, false, false, none⟩ origin)
      (.obj (Json.members table raw)) raw := by
  refine Json.readsAs_record ?_ (independent_table raw)
  simp only [table, List.forall_mem_cons]
  exact ⟨Member.faithful_text.must rfl, Member.faithful_optionalText rfl, Member.faithful_flag rfl,
    Member.faithful_flag rfl, Member.faithful_optionalText rfl, List.forall_mem_nil _⟩

theorem readsAs {a : Attribute} (sound : a.Sound) (origin : Origin) :
    ReadsAs (decode origin) a.encode a := by
  have loose := readsAs_loose a.toLoose origin
  refine ⟨loose.distinct, fun w hw => ?_⟩
  simp only [decode, loose.read w hw, bind, Except.bind]
  rw [show ofLoose a.toLoose = .ok a from sound]

end Attribute

namespace Variable

def Sound (v : Variable) : Prop :=
  ofLoose v.toLoose = .ok v

theorem sound_of_ofLoose {raw : Loose} {v : Variable} (h : ofLoose raw = .ok v) : v.Sound := by
  unfold ofLoose at h
  split at h
  · cases h
  · next named =>
    have named' := Text.allBlank_trim named
    split at h
    · cases h
    · cases h
    · cases h
      simp only [Sound, ofLoose, toLoose, if_neg named', Text.trim_trim]
      rfl
    · next x _ visible =>
      cases h
      simp only [Sound, ofLoose, toLoose, if_neg named', Attribute.given_idem visible, Text.trim_trim]

theorem sound_of_decode {origin : Origin} {v : Json} {x : Variable}
    (h : decode origin v = .ok x) : x.Sound := by
  unfold decode at h
  cases read : Json.record "RawVariable" table ⟨[], none, none⟩ origin v with
  | error fault =>
    simp only [read, bind, Except.bind] at h
    cases h
  | ok raw =>
    simp only [read, bind, Except.bind] at h
    split at h
    · next b e =>
      cases h
      exact sound_of_ofLoose e
    · cases h

theorem independent_table (raw : Loose) : Independent table ⟨[], none, none⟩ raw :=
  ⟨by decide, by simp [table], by simp [table]⟩

theorem readsAs_loose (raw : Loose) (origin : Origin) :
    ReadsAs (Json.record "RawVariable" table ⟨[], none, none⟩ origin)
      (.obj (Json.members table raw)) raw := by
  refine Json.readsAs_record ?_ (independent_table raw)
  simp only [table, List.forall_mem_cons]
  exact ⟨Member.faithful_text.must rfl, Member.faithful_optionalText rfl,
    Member.faithful_optionalText rfl, List.forall_mem_nil _⟩

theorem readsAs {v : Variable} (sound : v.Sound) (origin : Origin) :
    ReadsAs (decode origin) v.encode v := by
  have loose := readsAs_loose v.toLoose origin
  refine ⟨loose.distinct, fun w hw => ?_⟩
  simp only [decode, loose.read w hw, bind, Except.bind]
  rw [show ofLoose v.toLoose = .ok v from sound]

end Variable

namespace RootElement

def Sound (r : RootElement) : Prop :=
  ∀ a ∈ r.attributes, a.Sound

theorem sound_of_decode {origin : Origin} {v : Json} {r : RootElement}
    (h : decode origin v = .ok r) : r.Sound := by
  have start : Sound ⟨[], []⟩ := List.forall_mem_nil _
  refine Json.record_keeps ?_ start h
  simp only [table, List.forall_mem_cons]
  refine ⟨fun _ _ _ _ _ kept => kept, fun _ _ _ _ read _ => ?_, List.forall_mem_nil _⟩
  exact Json.forall_of_list (fun _ _ => Attribute.sound_of_decode) read

theorem independent_table (r : RootElement) : Independent table ⟨[], []⟩ r :=
  ⟨by decide, by simp [table], by simp [table]⟩

theorem readsAs {r : RootElement} (sound : r.Sound) (origin : Origin) :
    ReadsAs (decode origin) r.encode r := by
  refine Json.readsAs_record ?_ (independent_table r)
  simp only [table, List.forall_mem_cons]
  refine ⟨Member.faithful_text.must rfl, Member.faithful_unlessAt ?_ rfl, List.forall_mem_nil _⟩
  exact Json.readsAs_list fun a ha => Attribute.readsAs (sound a ha) origin

end RootElement

theorem SourceType.readsAs (t : SourceType) (origin : Origin) :
    ReadsAs (decode origin) (.str t.name) t :=
  Json.readsAs_str (by cases t <;> rfl)

theorem FieldType.readsAs (t : FieldType) (origin : Origin) :
    ReadsAs (decode origin) (.str t.name) t :=
  Json.readsAs_str (by cases t <;> rfl)

theorem ValueType.readsAs (t : ValueType) (origin : Origin) :
    ReadsAs (decode origin) (.str t.name) t :=
  Json.readsAs_str (by cases t <;> rfl)

theorem JsonValues.readsAs (t : JsonValues) (origin : Origin) :
    ReadsAs (decode origin) (.str t.name) t :=
  Json.readsAs_str (by cases t <;> rfl)

namespace Mapping

structure Sound (m : Mapping) : Prop where
  attributes : ∀ a ∈ m.attributes, a.Sound
  occurs : m.occurs < 0x100000000

theorem sound_of_decode {origin : Origin} {v : Json} {m : Mapping}
    (h : decode origin v = .ok m) : m.Sound := by
  have start : Sound {} := ⟨List.forall_mem_nil _, by decide⟩
  refine Json.record_keeps ?_ start h
  intro f hf
  simp only [table, List.mem_cons, List.not_mem_nil, or_false] at hf
  rcases hf with rfl | rfl | rfl | rfl | rfl | rfl | rfl | rfl | rfl | rfl | rfl | rfl
  case inr.inr.inr.inr.inr.inl =>
    exact fun _ _ _ _ read kept => ⟨kept.attributes, Json.lt_of_count read⟩
  case inr.inr.inr.inr.inr.inr.inr.inl =>
    refine fun _ _ _ _ read kept => ⟨?_, kept.occurs⟩
    exact Json.forall_of_list (fun _ _ => Attribute.sound_of_decode) read
  all_goals exact fun _ _ _ _ _ kept => ⟨kept.attributes, kept.occurs⟩

theorem independent_table (m : Mapping) : Independent table {} m :=
  ⟨by decide, by simp [table], by simp [table]⟩

theorem readsAs {m : Mapping} (sound : m.Sound) (origin : Origin) :
    ReadsAs (decode origin) m.encode m := by
  refine Json.readsAs_record ?_ (independent_table m)
  simp only [table, List.forall_mem_cons]
  refine ⟨Member.faithful_text, Member.faithful_value ?_, Member.faithful_text,
    Member.faithful_optionalText rfl, Member.faithful_value ?_, Member.faithful_unlessAt ?_ rfl,
    Member.faithful_flag rfl, Member.faithful_unlessAt ?_ rfl, Member.faithful_value ?_,
    Member.faithful_optionalText rfl, Member.faithful_optionalText rfl, Member.faithful_flag rfl,
    List.forall_mem_nil _⟩
  · exact m.sourceType.readsAs origin
  · exact m.fieldType.readsAs origin
  · exact Json.readsAs_count sound.occurs
  · exact Json.readsAs_list fun a ha => Attribute.readsAs (sound.attributes a ha) origin
  · exact m.valueType.readsAs origin

end Mapping

namespace MappingSet

structure Sound (s : MappingSet) : Prop where
  fields : ∀ m ∈ s.fields, m.Sound
  rootElement : ∀ r ∈ s.rootElement, r.Sound
  globals : ∀ v ∈ s.globals, v.Sound

theorem sound_of_decode {origin : Origin} {v : Json} {s : MappingSet}
    (h : decode origin v = .ok s) : s.Sound := by
  have start : Sound {} := ⟨List.forall_mem_nil _, nofun, List.forall_mem_nil _⟩
  refine Json.record_keeps ?_ start h
  simp only [table, List.forall_mem_cons]
  refine ⟨fun _ _ _ _ read kept => { kept with fields := ?_ }, fun _ _ _ _ _ kept => { kept with },
    fun _ _ _ _ _ kept => { kept with }, fun _ _ _ _ read kept => { kept with rootElement := ?_ },
    fun _ _ _ _ read kept => { kept with globals := ?_ }, fun _ _ _ _ _ kept => { kept with },
    List.forall_mem_nil _⟩
  · exact Json.forall_of_list (fun _ _ => Mapping.sound_of_decode) read
  · exact Json.forall_of_optional (fun _ _ => RootElement.sound_of_decode) read
  · exact Json.forall_of_list (fun _ _ => Variable.sound_of_decode) read

theorem independent_table (s : MappingSet) : Independent table {} s :=
  ⟨by decide, by simp [table], by simp [table]⟩

theorem readsAs {s : MappingSet} (sound : s.Sound) (origin : Origin) :
    ReadsAs (decode origin) s.encode s := by
  refine Json.readsAs_record ?_ (independent_table s)
  simp only [table, List.forall_mem_cons]
  refine ⟨Member.faithful_value ?_, Member.faithful_optionalText rfl, Member.faithful_optionalText rfl,
    Member.faithful_optional Json.rejects_record ?_ rfl, Member.faithful_unlessAt ?_ rfl,
    Member.faithful_optionalText rfl, List.forall_mem_nil _⟩
  · exact Json.readsAs_list fun m hm => Mapping.readsAs (sound.fields m hm) origin
  · exact fun r hr => RootElement.readsAs (sound.rootElement r hr) origin
  · exact Json.readsAs_list fun v hv => Variable.readsAs (sound.globals v hv) origin

end MappingSet

namespace Namespaces

theorem insertEntry_perm {name : Text} (uri : Text) {entries : List (Text × Text)}
    (h : name ∉ entries.map (·.1)) :
    (insertEntry name uri entries).Perm ((name, uri) :: entries) := by
  induction entries with
  | nil => exact .refl _
  | cons e entries ih =>
    obtain ⟨n, u⟩ := e
    rw [List.map_cons, List.mem_cons, not_or] at h
    rw [insertEntry]
    split
    · exact .refl _
    · rw [if_neg h.1]
      exact ((ih h.2).cons (n, u)).trans (.swap (name, uri) (n, u) entries)

theorem foldl_insert_perm (t : Namespaces) {entries : List (Text × Text)}
    (h : ((t.entries ++ entries).map (·.1)).Nodup) :
    (entries.foldl (fun t e => t.insert e.1 e.2) t).entries.Perm (t.entries ++ entries) := by
  induction entries generalizing t with
  | nil =>
    rw [List.append_nil]
    exact .refl _
  | cons e entries ih =>
    have moved : (t.entries ++ e :: entries).Perm ((e :: t.entries) ++ entries) := List.perm_middle
    have distinct := (moved.map (·.1)).nodup_iff.mp h
    have fresh : e.1 ∉ t.entries.map (·.1) := by
      rw [List.cons_append, List.map_cons, List.nodup_cons, List.map_append] at distinct
      exact fun inside => distinct.1 (List.mem_append_left _ inside)
    have inserted := (insertEntry_perm e.2 fresh).append_right entries
    have others := ih (t.insert e.1 e.2) ((inserted.map (·.1)).nodup_iff.mpr distinct)
    exact others.trans (inserted.trans moved.symm)

theorem ofList_of_perm (t : Namespaces) {entries : List (Text × Text)} (h : entries.Perm t.entries) :
    ofList entries = t := by
  have distinct : ((empty.entries ++ entries).map (·.1)).Nodup :=
    (h.map (·.1)).nodup_iff.mpr t.nodup_names
  have kept := (foldl_insert_perm empty distinct).trans h
  have same : (ofList entries).entries = t.entries := by
    refine kept.eq_of_pairwise ?_ (ofList entries).ordered t.ordered
    intro a b _ _ less greater
    exact absurd (List.lt_trans less greater) (List.lt_irrefl _)
  cases made : ofList entries with
  | mk own ordered =>
    rw [made] at same
    cases t
    cases same
    rfl

theorem forall₂_entries {entries : List (Text × Text)} {own : List (Text × Json)}
    (h : Json.MembersRearranged (entries.map fun (name, uri) => (name, .str uri)) own) :
    List.Forall₂ (fun n e => n = (e.1, Json.str e.2)) own entries := by
  induction entries generalizing own with
  | nil =>
    cases h
    exact .nil
  | cons e entries ih =>
    obtain ⟨_, others, rfl, rfl, later⟩ := h
    exact .cons rfl (ih later)

theorem allMembers_text {ns : List (Text × Json)} {entries : List (Text × Text)}
    (h : List.Forall₂ (fun n e => n = (e.1, Json.str e.2)) ns entries) :
    Json.allMembers Json.text ns = .ok entries := by
  induction h with
  | nil => rfl
  | cons first _ ih =>
    subst first
    simp only [Json.allMembers, Json.text, ih]
    rfl

theorem readsAs (t : Namespaces) : ReadsAs decode t.encode t := by
  refine ⟨⟨?_, Json.membersDistinct_iff.mpr ?_⟩, ?_⟩
  · rw [List.map_map]
    exact t.nodup_names
  · intro m hm
    obtain ⟨e, _, rfl⟩ := List.mem_map.mp hm
    trivial
  · rintro _ ⟨own, ns, rfl, rearranged, perm⟩
    obtain ⟨entries, read, same⟩ := List.perm_comp_forall₂ perm.symm (forall₂_entries rearranged)
    simp only [decode, Json.table, allMembers_text read, Except.map, ofList_of_perm t same]

end Namespaces

namespace Project

def Sound (p : Project) : Prop :=
  p.mappingSet.Sound

theorem sound_of_decode {origin : Origin} {v : Json} {p : Project}
    (h : decode origin v = .ok p) : p.Sound := by
  have start : Sound {} := ⟨List.forall_mem_nil _, nofun, List.forall_mem_nil _⟩
  refine Json.record_keeps ?_ start h
  simp only [table, List.forall_mem_cons]
  refine ⟨fun _ _ _ _ _ kept => kept, fun _ _ _ _ _ kept => kept, fun _ _ _ _ _ kept => kept,
    fun _ _ _ _ _ kept => kept, fun _ _ _ _ read _ => ?_, List.forall_mem_nil _⟩
  exact MappingSet.sound_of_decode read

theorem independent_table (p : Project) : Independent table {} p :=
  ⟨by decide, by simp [table], by simp [table]⟩

theorem readsAs {p : Project} (sound : p.Sound) (origin : Origin) :
    ReadsAs (decode origin) p.encode p := by
  refine Json.readsAs_record ?_ (independent_table p)
  simp only [table, List.forall_mem_cons]
  exact ⟨Member.faithful_optionalText rfl, Member.faithful_optionalText rfl,
    Member.faithful_value p.namespaces.readsAs, Member.faithful_value (p.jsonValues.readsAs origin),
    (Member.faithful_value (MappingSet.readsAs sound origin)).must rfl, List.forall_mem_nil _⟩

end Project

/-- Whatever is read as a value is written so that it is read as the same value: in the order in
which it is written, with sorted keys, and with its members in any other order. Written again it is
the same JSON. -/
def RoundTrips {α : Type} (decode : Origin → Decoder α) (encode : α → Json) : Prop :=
  ∀ origin v x, decode origin v = .ok x → ∀ again,
    decode again (encode x) = .ok x ∧
    decode again (encode x).sorted = .ok x ∧
    (∀ w, Json.Rearranged (encode x) w → decode again w = .ok x) ∧
    (decode again (encode x)).map encode = .ok (encode x)

theorem roundTrips_of {α : Type} {decode : Origin → Decoder α} {encode : α → Json} {P : α → Prop}
    (sound : ∀ {origin v x}, decode origin v = .ok x → P x)
    (readsAs : ∀ {x}, P x → ∀ origin, ReadsAs (decode origin) (encode x) x) :
    RoundTrips decode encode := by
  intro origin v x read again
  have back := readsAs (sound read) again
  refine ⟨back.same, back.sorted, back.read, ?_⟩
  rw [back.same]
  rfl

/-- Projects, mapping sets and all their parts are read back from what is written for them. -/
theorem written_values_read_back :
    RoundTrips Project.decode Project.encode ∧
    RoundTrips MappingSet.decode MappingSet.encode ∧
    RoundTrips Mapping.decode Mapping.encode ∧
    RoundTrips RootElement.decode RootElement.encode ∧
    RoundTrips Attribute.decode Attribute.encode ∧
    RoundTrips Variable.decode Variable.encode :=
  ⟨roundTrips_of Project.sound_of_decode Project.readsAs,
    roundTrips_of MappingSet.sound_of_decode MappingSet.readsAs,
    roundTrips_of Mapping.sound_of_decode Mapping.readsAs,
    roundTrips_of RootElement.sound_of_decode RootElement.readsAs,
    roundTrips_of Attribute.sound_of_decode Attribute.readsAs,
    roundTrips_of Variable.sound_of_decode Variable.readsAs⟩

/-- A project with a field given as an array, a type that is not known and a name in white space. -/
def orderProject : Json :=
  .obj [("namespaces", .obj [("o", .str "urn:order"), ("default", .str "urn:out")]),
    ("mappingSet", .obj [("fields", .arr [
      .arr [.str "Order/@id", .str "attribute", .str "Id"],
      .obj [("targetName", .str "Total"), ("sourcePath", .str "Order/Total"),
        ("fieldType", .str "money"), ("occurs", .int 2),
        ("attributes", .arr [.obj [("name", .str " unit "), ("value", .str " Unit "),
          ("isVariable", .bool true)]])]])])]

/-- What the project is read as: names are trimmed, an unknown type is text, and what is missing has its
default. -/
def orderProjectRead : Project where
  namespaces := .ofList [("default", "urn:out"), ("o", "urn:order")]
  mappingSet :=
    { fields :=
        [{ sourcePath := "Order/@id", sourceType := .attribute, targetName := "Id" },
          { sourcePath := "Order/Total", targetName := "Total", fieldType := .string, occurs := 2,
            attributes := [⟨"unit", .variable "Unit"⟩] }] }

theorem order_project_reads_back :
    Project.decode .value orderProject = .ok orderProjectRead ∧
    Project.decode .text orderProjectRead.encode = .ok orderProjectRead ∧
    Project.decode .value orderProjectRead.encode.sorted = .ok orderProjectRead := by
  have read : Project.decode .value orderProject = .ok orderProjectRead := rfl
  exact ⟨read, (written_values_read_back.1 .value orderProject orderProjectRead read .text).1,
    (written_values_read_back.1 .value orderProject orderProjectRead read .value).2.1⟩

end FieldMap
