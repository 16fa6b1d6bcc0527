import WireSchema.Proofs.FieldShape

/-!
# The places of rules

The rules of a field come from several tables of its type, from its head and from the elements that
it wraps. Each table states its rules under names of its own, at most once each; what may be stated
again are expression constraints and examples, which are repeated options. Beneath another field, a
rule keeps the rest of its address.

* `LeafType.rules_within`: the rules of a leaf type stand in its group, under different names.
* `FieldContent.apart_allRules`: what the head, the constant and the examples add shares no address
  that can be set just once.
* `Field.PlacesRules`: where the rules of one field stand.
* `PlacedField.placesRules`, `Package.rules_placed`: in whatever builds, the rules of every field
  stand there.
-/

namespace WireSchema

/-! ## Rules apart -/

namespace Rule

/-- The option that states the rule is a repeated one. -/
def Repeatable (r : Rule) : Prop :=
  r.path.getLast? = some "cel" ∨ r.path.getLast? = some "example"

/-- Two rules of one field share no address, unless it is the one of a repeated option. -/
def Apart (a b : Rule) : Prop := a.path = b.path → a.Repeatable

variable {a b : Rule}

theorem Repeatable.apart (h : b.Repeatable) : a.Apart b := fun heq => by rwa [Repeatable, heq]

/-- Rules in different places have different addresses. -/
theorem apart_of_isPrefix {p q : List String} (hp : p <+: a.path) (hq : q <+: b.path)
    (hlength : p.length = q.length) (hne : p ≠ q) : a.Apart b := fun heq =>
  have hle : p <+: q := List.prefix_of_prefix_length_le hp (heq ▸ hq) (Nat.le_of_eq hlength)
  absurd (hle.eq_of_length hlength) hne

theorem isPrefix_wrapped (outer : List String) (r : Rule) : outer <+: (r.wrapped outer).path :=
  List.prefix_append _ _

theorem Apart.wrapped (h : a.Apart b) (outer : List String) :
    (a.wrapped outer).Apart (b.wrapped outer) := by
  intro heq
  have hlast : ∀ name, a.path.getLast? = some name →
      (a.wrapped outer).path.getLast? = some name := fun name hname => by
    rw [Rule.wrapped, List.getLast?_append, hname, Option.some_or]
  exact (h (List.append_cancel_left heq)).imp (hlast _) (hlast _)

theorem pairwise_wrapped {rules : List Rule} (h : rules.Pairwise Apart) (outer : List String) :
    (rules.map (Rule.wrapped outer)).Pairwise Apart :=
  List.pairwise_map.2 (h.imp fun hab => hab.wrapped outer)

/-- The rules stand in one group under some of the names, in their order. -/
def Within (group : String) (names : List String) (rules : List Rule) : Prop :=
  (rules.map Rule.path).Sublist (names.map fun name => [group, name])

namespace Within

variable {group : String} {names more : List String} {rules others : List Rule}

theorem append (h : Within group names rules) (h' : Within group more others) :
    Within group (names ++ more) (rules ++ others) := by
  rw [Within, List.map_append, List.map_append]
  exact List.Sublist.append h h'

theorem path_eq (h : Within group names rules) {r : Rule} (hr : r ∈ rules) :
    ∃ name ∈ names, r.path = [group, name] := by
  obtain ⟨name, hname, heq⟩ := List.mem_map.1 (h.subset (List.mem_map_of_mem hr))
  exact ⟨name, hname, heq.symm⟩

theorem pairwise (h : Within group names rules) (hnames : names.Nodup) :
    rules.Pairwise Apart := by
  have hplaces : (names.map fun name => [group, name]).Nodup :=
    List.Pairwise.map _ (fun _ _ hne heq => hne (List.cons.inj (List.cons.inj heq).2).1) hnames
  have hpaths : (rules.map Rule.path).Nodup := h.nodup hplaces
  exact (List.pairwise_map.1 hpaths).imp fun hne heq => absurd heq hne

end Within

section Tables

variable (group : String)

/-- Named values make one rule each. -/
theorem within_filterMap {α : Type} (make : α → Literal) (named : List (String × Option α)) :
    Within group (named.map Prod.fst)
      (named.filterMap fun x => x.2.map fun v => (⟨[group, x.1], make v⟩ : Rule)) := by
  rw [Within, List.map_map]
  refine map_filterMap_sublist (fun x r hr => ?_) named
  obtain ⟨v, -, rfl⟩ := Option.map_eq_some_iff.1 hr
  rfl

/-- A value that may be missing makes at most one rule. -/
theorem within_toList {α : Type} (name : String) (v : Option α) (make : α → Literal) :
    Within group [name] (v.map fun v => (⟨[group, name], make v⟩ : Rule)).toList := by
  cases v with
  | none => exact List.nil_sublist _
  | some v => exact .refl _

theorem within_flag (name : String) (on : Bool) :
    Within group [name] (if on then [flag [group, name]] else []) := by
  cases on with
  | false => exact List.nil_sublist _
  | true => exact .refl _

end Tables

end Rule

open Rule (Within)

variable (group : String)

namespace Bounds

def ruleNames : List String := ["lt", "lte", "gt", "gte"]

theorem rules_within (b : Bounds Literal) : Within group ruleNames (b.rules group) := by
  have hrules : b.rules group =
      [("lt", b.lt), ("lte", b.lte), ("gt", b.gt), ("gte", b.gte)].filterMap
        fun x => x.2.map fun v => (⟨[group, x.1], v⟩ : Rule) := by
    rw [rules, named, List.map_filterMap]
    simp only [Option.map_map, Function.comp_def]
  rw [hrules]
  exact Rule.within_filterMap group id _

end Bounds

namespace Members

def ruleNames : List String := ["in", "not_in"]

theorem rules_within (m : Members Literal) : Within group ruleNames (m.rules group) := by
  have hlist : ∀ name (values : List Literal), Within group [name]
      (if values.isEmpty then [] else [⟨[group, name], .list values⟩]) := by
    intro name values
    split
    · exact List.nil_sublist _
    · exact .refl _
  exact (hlist "in" m.allowed).append (hlist "not_in" m.denied)

end Members

theorem Size.rules_within (names : SizeNames) (s : Size) :
    Within group [names.min, names.max] (s.rules group names) :=
  (Rule.within_toList group names.min s.min fun n => .uint n).append
    (Rule.within_toList group names.max s.max fun n => .uint n)

theorem Length.rules_within (names : LengthNames) (l : Length) :
    Within group [names.exact, names.min, names.max] (l.rules group names) :=
  (Rule.within_toList group names.exact l.exact fun n => .uint n).append
    (l.toSize.rules_within group names.toSizeNames)

namespace Affixes

def ruleNames : List String := ["pattern", "prefix", "suffix", "contains", "not_contains"]

theorem rules_within (a : Affixes Literal) : Within group ruleNames (a.rules group) :=
  Rule.within_filterMap group id _

end Affixes

namespace Format

/-- The names of the rules that state formats. -/
def ruleNames : List String := (all.map ruleName).eraseDups

theorem rules_within (formats : List Format) : Within group ruleNames (rules group formats) := by
  cases formats with
  | nil => exact List.nil_sublist _
  | cons f _ =>
    have hname : f.ruleName ∈ ruleNames := by cases f <;> decide +kernel
    exact List.singleton_sublist.2 (List.mem_map_of_mem hname)

end Format

namespace LeafType

/-- The names of the rules of a type in their order, sample values apart. -/
def ruleNames : LeafType → List String
  | number _ _ => Bounds.ruleNames ++ Members.ruleNames ++ ["finite"]
  | bool _ => []
  | string _ =>
    [Length.units.exact, Length.units.min, Length.units.max]
      ++ [Length.bytes.exact, Length.bytes.min, Length.bytes.max]
      ++ Affixes.ruleNames ++ Members.ruleNames ++ Format.ruleNames
  | bytes _ =>
    [Length.units.exact, Length.units.min, Length.units.max]
      ++ Affixes.ruleNames ++ Members.ruleNames ++ Format.ruleNames
  | enum _ _ => ["defined_only"] ++ Members.ruleNames
  | message _ => []
  | timestamp _ => Bounds.ruleNames ++ ["lt_now"] ++ ["gt_now"] ++ ["within"]
  | duration _ => Bounds.ruleNames ++ Members.ruleNames
  | any _ => Members.ruleNames

theorem nodup_ruleNames (t : LeafType) : t.ruleNames.Nodup := by
  cases t <;> simp only [ruleNames] <;> decide +kernel

/-- **The rules of a type stand in its group, under different names.** -/
theorem rules_within (t : LeafType) :
    t.rules = [] ∨ ∃ group, t.group? = some group ∧ Within group t.ruleNames t.rules := by
  cases t with
  | number k r =>
    exact .inr ⟨_, rfl, ((r.range.rules_within _).append (r.members.rules_within _)).append
      (Rule.within_flag _ "finite" r.finite)⟩
  | bool _ => exact .inl rfl
  | string r =>
    exact .inr ⟨_, rfl, ((((r.length.rules_within _ Length.units).append
      (r.bytes.rules_within _ Length.bytes)).append (Affixes.rules_within _ _)).append
      (Members.rules_within _ _)).append (Format.rules_within _ _)⟩
  | bytes r =>
    exact .inr ⟨_, rfl, (((r.length.rules_within _ Length.units).append
      (Affixes.rules_within _ _)).append (Members.rules_within _ _)).append
      (Format.rules_within _ _)⟩
  | enum _ r =>
    exact .inr ⟨_, rfl, (Rule.within_flag _ "defined_only" r.definedOnly).append
      (Members.rules_within _ _)⟩
  | message _ => exact .inl rfl
  | timestamp r =>
    exact .inr ⟨_, rfl, (((Bounds.rules_within _ _).append
      (Rule.within_flag _ "lt_now" r.ltNow)).append (Rule.within_flag _ "gt_now" r.gtNow)).append
      (Rule.within_toList _ "within" r.within Literal.ofSpan)⟩
  | duration r => exact .inr ⟨_, rfl, (Bounds.rules_within _ _).append (Members.rules_within _ _)⟩
  | any m => exact .inr ⟨_, rfl, Members.rules_within _ _⟩

end LeafType

/-! ## Rules of fields -/

namespace Rule

/-- Rules of repeated options may follow any others. -/
theorem pairwise_append_repeatable {rules more : List Rule} (h : rules.Pairwise Apart)
    (hmore : ∀ r ∈ more, r.Repeatable) : (rules ++ more).Pairwise Apart := by
  have hboth : more.Pairwise Apart :=
    (List.pairwise_of_forall fun _ _ => trivial).imp_of_mem fun _ hb _ => (hmore _ hb).apart
  exact List.pairwise_append.2 ⟨h, hboth, fun a _ b hb => (hmore b hb).apart⟩

theorem Within.one_lt_length {group : String} {names : List String} {rules : List Rule}
    (h : Within group names rules) {r : Rule} (hr : r ∈ rules) : 1 < r.path.length := by
  obtain ⟨name, -, hpath⟩ := h.path_eq hr
  rw [hpath]; exact Nat.one_lt_two

theorem one_lt_length_of_wrapped {group segment : String} {inner : List Rule} {r : Rule}
    (hr : r ∈ inner.map (Rule.wrapped [group, segment])) : 1 < r.path.length := by
  obtain ⟨_, -, rfl⟩ := List.mem_map.1 hr
  exact Nat.succ_lt_succ (Nat.succ_pos _)

/-- No rule of a table has the place of the elements that are stated beneath the same group. -/
theorem Within.apart_wrapped {group segment : String} {names : List String}
    {rules inner : List Rule} (h : Within group names rules) (hnew : segment ∉ names) :
    ∀ a ∈ rules, ∀ b ∈ inner.map (Rule.wrapped [group, segment]), a.Apart b := by
  intro a ha b hb
  obtain ⟨name, hname, hpath⟩ := h.path_eq ha
  obtain ⟨r, -, rfl⟩ := List.mem_map.1 hb
  have hplace : [group, name] <+: a.path := hpath ▸ List.prefix_rfl
  refine apart_of_isPrefix hplace (isPrefix_wrapped _ r) rfl fun heq => hnew ?_
  rwa [← (List.cons.inj (List.cons.inj heq).2).1]

/-- The rules of keys and values have places of their own. -/
theorem apart_wrapped_wrapped {group segment segment' : String} {inner inner' : List Rule}
    (hne : segment ≠ segment') : ∀ a ∈ inner.map (Rule.wrapped [group, segment]),
      ∀ b ∈ inner'.map (Rule.wrapped [group, segment']), a.Apart b := by
  intro a ha b hb
  obtain ⟨r, -, rfl⟩ := List.mem_map.1 ha
  obtain ⟨r', -, rfl⟩ := List.mem_map.1 hb
  refine apart_of_isPrefix (isPrefix_wrapped _ r) (isPrefix_wrapped _ r') rfl fun heq => hne ?_
  exact (List.cons.inj (List.cons.inj heq).2).1

end Rule

theorem FieldContent.allRules_of_plain {c : FieldContent} {h : FieldHead}
    (hconstant : c.constant = none) (hexamples : c.examples = []) :
    c.allRules h = c.rules ++ h.rules := by
  rw [allRules, otherRules, hconstant, hexamples, Option.toList_none, List.nil_append,
    List.append_nil]

theorem FieldHead.path_of_mem_rules {h : FieldHead} {r : Rule} (hr : r ∈ h.rules) :
    r.path = ["required"] ∨ r.path = ["cel"] := by
  rcases List.mem_append.1 hr with hr | hr
  · split at hr
    · rw [List.mem_singleton.1 hr]; exact .inl rfl
    · cases hr
  · obtain ⟨c, -, rfl⟩ := List.mem_map.1 hr
    exact .inr rfl

/-- **The head, the constant and the examples add no repetition** to rules that stand deeper than
those of the head. -/
theorem FieldContent.apart_allRules {c : FieldContent} {h : FieldHead}
    (hclear : c.constantViolations h = []) (hrules : c.rules.Pairwise Rule.Apart)
    (hdeep : ∀ r ∈ c.rules, 1 < r.path.length) (hexamples : ∀ r ∈ c.examples, r.Repeatable) :
    (c.allRules h).Pairwise Rule.Apart := by
  cases hc : c.constant with
  | some r =>
    rw [(constant_alone hc hclear).2]
    exact List.pairwise_singleton _ _
  | none =>
    have hrequired : (c.rules ++ if h.required then [Rule.flag ["required"]] else []).Pairwise
        Rule.Apart := by
      split
      · refine List.pairwise_append.2 ⟨hrules, List.pairwise_singleton _ _, fun a ha b hb heq => ?_⟩
        rw [List.mem_singleton.1 hb] at heq
        have hlength := hdeep a ha
        rw [heq] at hlength
        exact absurd hlength (by decide)
      · rwa [List.append_nil]
    rw [allRules, hc, Option.toList_none, List.nil_append, otherRules, FieldHead.rules,
      ← List.append_assoc]
    refine Rule.pairwise_append_repeatable (Rule.pairwise_append_repeatable hrequired ?_) hexamples
    intro r hr
    obtain ⟨_, -, rfl⟩ := List.mem_map.1 hr
    exact .inl rfl

namespace LeafType

theorem pairwise_rules (t : LeafType) : t.rules.Pairwise Rule.Apart := by
  obtain hnone | ⟨group, -, hwithin⟩ := t.rules_within
  · rw [hnone]; exact List.Pairwise.nil
  · exact hwithin.pairwise t.nodup_ruleNames

theorem path_of_mem_rules {t : LeafType} {r : Rule} (hr : r ∈ t.rules) :
    ∃ group name, t.group? = some group ∧ r.path = [group, name] := by
  obtain hnone | ⟨group, hgroup, hwithin⟩ := t.rules_within
  · rw [hnone] at hr; cases hr
  · obtain ⟨name, -, hpath⟩ := hwithin.path_eq hr
    exact ⟨group, name, hgroup, hpath⟩

theorem path_of_mem_exampleRules {t : LeafType} {r : Rule} (hr : r ∈ t.exampleRules) :
    ∃ group, t.group? = some group ∧ r.path = [group, "example"] := by
  unfold exampleRules at hr
  split at hr
  · next group hgroup =>
    obtain ⟨v, -, rfl⟩ := List.mem_map.1 hr
    exact ⟨group, hgroup, rfl⟩
  · cases hr

end LeafType

namespace Field

/-- The field and the elements that it wraps. -/
def withElements : Field → List Field
  | leaf f => [leaf f]
  | repeated head item count unique => [repeated head item count unique, item]
  | map head key value pairs => [map head key value pairs, key, value]

/-- Where the rules of the descriptor of a field stand: those of a leaf in the group of its kind,
those of a collection in its own group with the rules of its elements beneath, those of the head
beside either. No option that is set just once is set twice. -/
structure PlacesRules (f : Field) (d : FieldDescriptor) : Prop where
  name_eq : d.name = f.name
  leaf : d.kind.isLeaf = true → ∀ r ∈ d.rules, r.path = ["required"] ∨ r.path = ["cel"] ∨
    ∃ group name, d.kind.ruleGroup? = some group ∧ r.path = [group, name]
  repeated : ∀ item, d.kind = .repeated item →
    ∃ head inner count unique, f = .repeated head inner count unique ∧ d.rules =
      count.rules "repeated" Size.items
        ++ (if unique then [.flag ["repeated", "unique"]] else [])
        ++ item.rules.map (Rule.wrapped ["repeated", "items"])
        ++ head.rules
  map : ∀ key value, d.kind = .map key value →
    ∃ head innerKey innerValue pairs, f = .map head innerKey innerValue pairs ∧ d.rules =
      pairs.rules "map" Size.pairs
        ++ key.rules.map (Rule.wrapped ["map", "keys"])
        ++ value.rules.map (Rule.wrapped ["map", "values"])
        ++ head.rules
  apart : d.rules.Pairwise Rule.Apart

/-- A leaf has no rules of a collection. -/
theorem placesRules_of_isLeaf {f : Field} {d : FieldDescriptor} (hleaf : d.kind.isLeaf = true)
    (hname : d.name = f.name) (hrules : ∀ r ∈ d.rules, r.path = ["required"] ∨ r.path = ["cel"] ∨
      ∃ group name, d.kind.ruleGroup? = some group ∧ r.path = [group, name])
    (hapart : d.rules.Pairwise Rule.Apart) : f.PlacesRules d := by
  refine ⟨hname, fun _ => hrules, fun item he => ?_, fun key value he => ?_, hapart⟩
  · rw [he] at hleaf; cases hleaf
  · rw [he] at hleaf; cases hleaf

end Field

section Built

variable {s : Scope} {n : Nat} {d : FieldDescriptor}

theorem LeafField.placesRules {f : LeafField} (h : (f.build s n).value = some d) :
    (Field.leaf f).PlacesRules d ∧ d.kind.isLeaf = true := by
  obtain ⟨kind, hkind, hc⟩ := value_build h
  have hleaf := LeafType.isLeaf_wireKind hkind
  have hgroup := LeafType.ruleGroup?_wireKind hkind
  have hclear := (FieldContent.clear_of_value hc).2
  obtain rfl := FieldContent.value_build hc
  refine ⟨Field.placesRules_of_isLeaf hleaf rfl (fun r hr => ?_) ?_, hleaf⟩
  · rcases List.mem_append.1 hr with hr | hr
    · obtain ⟨group, v, hg, rfl⟩ := LeafType.constantRule?_eq_some (Option.mem_toList.1 hr)
      exact .inr (.inr ⟨group, "const", hgroup.trans hg, rfl⟩)
    · rcases List.mem_append.1 hr with hr | hr
      · rcases List.mem_append.1 hr with hr | hr
        · obtain ⟨group, name, hg, hpath⟩ := LeafType.path_of_mem_rules hr
          exact .inr (.inr ⟨group, name, hgroup.trans hg, hpath⟩)
        · exact (FieldHead.path_of_mem_rules hr).imp_right .inl
      · obtain ⟨group, hg, hpath⟩ := LeafType.path_of_mem_exampleRules hr
        exact .inr (.inr ⟨group, "example", hgroup.trans hg, hpath⟩)
  · refine FieldContent.apart_allRules hclear f.type.pairwise_rules (fun r hr => ?_) fun r hr => ?_
    · obtain ⟨group, name, -, hpath⟩ := LeafType.path_of_mem_rules hr
      rw [hpath]; exact Nat.one_lt_two
    · obtain ⟨group, -, hpath⟩ := LeafType.path_of_mem_exampleRules hr
      exact .inr (by rw [hpath]; rfl)

namespace Field

/-- An element of a collection places its rules as a leaf, whether or not it has presence. -/
theorem placesRules_element {outer : String} {f : Field}
    (h : (buildElement s n outer f).value = some d) : f.PlacesRules d ∧ d.kind.elements = [] := by
  obtain ⟨g, rfl, hg⟩ := value_element h
  obtain ⟨hplaces, hleaf⟩ := LeafField.placesRules hg
  exact ⟨placesRules_of_isLeaf hleaf hplaces.name_eq (hplaces.leaf hleaf) hplaces.apart,
    WireKind.elements_of_isLeaf hleaf⟩

theorem placesRules_repeated {head : FieldHead} {item : Field} {count : Size} {unique : Bool}
    (h : ((repeated head item count unique).build s n).value = some d) :
    List.Forall₂ PlacesRules (repeated head item count unique).withElements
      (d :: d.kind.elements) := by
  obtain ⟨i, -, hi, hc⟩ := value_repeated h
  obtain ⟨hplaces, hnone⟩ := placesRules_element hi
  have hclear := (FieldContent.clear_of_value hc).2
  obtain rfl := FieldContent.value_build hc
  have hown := (count.rules_within "repeated" Size.items).append
    (Rule.within_flag "repeated" "unique" unique)
  have helements : (WireKind.repeated i).elements = [i] := by
    rw [WireKind.elements_repeated, hnone]
  refine .cons ⟨rfl, nofun, fun item he => ?_, nofun, ?_⟩ (helements ▸ .cons hplaces .nil)
  · cases he
    exact ⟨head, _, count, unique, rfl, FieldContent.allRules_of_plain rfl rfl⟩
  · refine FieldContent.apart_allRules hclear ?_ ?_ nofun
    · exact List.pairwise_append.2 ⟨hown.pairwise (by decide),
        Rule.pairwise_wrapped hplaces.apart _, hown.apart_wrapped (by decide)⟩
    · exact List.forall_mem_append.2
        ⟨fun _ => hown.one_lt_length, fun _ => Rule.one_lt_length_of_wrapped⟩

theorem placesRules_map {head : FieldHead} {key value : Field} {pairs : Size}
    (h : ((map head key value pairs).build s n).value = some d) :
    List.Forall₂ PlacesRules (map head key value pairs).withElements (d :: d.kind.elements) := by
  obtain ⟨k, v, -, hk, hv, hc⟩ := value_map h
  obtain ⟨hkplaces, hknone⟩ := placesRules_element hk
  obtain ⟨hvplaces, hvnone⟩ := placesRules_element hv
  have hclear := (FieldContent.clear_of_value hc).2
  obtain rfl := FieldContent.value_build hc
  have hown := pairs.rules_within "map" Size.pairs
  have helements : (WireKind.map k v).elements = [k, v] := by
    rw [WireKind.elements_map, hknone, hvnone, List.singleton_append]
  refine .cons ⟨rfl, nofun, nofun, fun key value he => ?_, ?_⟩
    (helements ▸ .cons hkplaces (.cons hvplaces .nil))
  · cases he
    exact ⟨head, _, _, pairs, rfl, FieldContent.allRules_of_plain rfl rfl⟩
  · refine FieldContent.apart_allRules hclear ?_ ?_ nofun
    · have hkeys : (pairs.rules "map" Size.pairs ++ k.rules.map
          (Rule.wrapped ["map", "keys"])).Pairwise Rule.Apart := List.pairwise_append.2
        ⟨hown.pairwise (by decide), Rule.pairwise_wrapped hkplaces.apart _,
          hown.apart_wrapped (by decide)⟩
      exact List.pairwise_append.2 ⟨hkeys, Rule.pairwise_wrapped hvplaces.apart _,
        List.forall_mem_append.2
          ⟨hown.apart_wrapped (by decide), Rule.apart_wrapped_wrapped (by decide)⟩⟩
    · refine List.forall_mem_append.2 ⟨?_, fun _ => Rule.one_lt_length_of_wrapped⟩
      exact List.forall_mem_append.2
        ⟨fun _ => hown.one_lt_length, fun _ => Rule.one_lt_length_of_wrapped⟩

/-- A field that builds places its rules, and so do the elements that it wraps. -/
theorem placesRules {f : Field} (h : (f.build s n).value = some d) :
    List.Forall₂ PlacesRules f.withElements (d :: d.kind.elements) := by
  cases f with
  | leaf f =>
    obtain ⟨hplaces, hleaf⟩ := LeafField.placesRules (f := f) h
    rw [WireKind.elements_of_isLeaf hleaf]
    exact .cons hplaces .nil
  | repeated _ _ _ _ => exact placesRules_repeated h
  | map _ _ _ _ => exact placesRules_map h

end Field

theorem PlacedField.placesRules {x : PlacedField} (h : (x.build s).value = some d) :
    List.Forall₂ Field.PlacesRules x.field.withElements (d :: d.kind.elements) := by
  obtain ⟨place, number, f⟩ := x
  cases place with
  | none => exact Field.placesRules h
  | some oneof =>
    obtain ⟨g, e, rfl, he, rfl⟩ := Oneof.value_choice h
    obtain ⟨hplaces, hleaf⟩ := LeafField.placesRules he
    rw [WireKind.elements_of_isLeaf (show e.kind.isLeaf = true from hleaf)]
    refine .cons (Field.placesRules_of_isLeaf hleaf ?_ ?_ ?_) .nil
    · exact hplaces.name_eq
    · exact hplaces.leaf hleaf
    · exact hplaces.apart

end Built

namespace Package

/-- **Every rule has its place.** A field that builds, in whatever scope and as a choice of a oneof
or not, places its rules, and so does everything that it wraps. Hence every field descriptor of a
package that builds has its rules in their places. -/
theorem rules_placed :
    (∀ (s : Scope) (x : PlacedField) (d : FieldDescriptor), (x.build s).value = some d →
      List.Forall₂ Field.PlacesRules x.field.withElements (d :: d.kind.elements)) ∧
    ∀ (p : Package) (d : PackageDescriptor), p.build = .ok d →
      ∀ fd ∈ d.files, ∀ x ∈ fd.everyField, ∃ f : Field, f.PlacesRules x.2 := by
  refine ⟨fun s x d h => PlacedField.placesRules h, fun p d h fd hfd x hx => ?_⟩
  obtain ⟨f, -, hf⟩ := exists_of_forall₂_right (value_files h).2 hfd
  obtain ⟨y, hy, hx⟩ := List.mem_flatMap.1 hx
  obtain ⟨path, z, -, hz⟩ := File.built_of_mem_placedFields hf hy
  have hmem : x.2 ∈ y.2 :: y.2.kind.elements := by
    rcases List.mem_cons.1 hx with rfl | hx
    · exact List.mem_cons_self
    · obtain ⟨e, he, rfl⟩ := List.mem_map.1 hx
      exact List.mem_cons_of_mem _ he
  obtain ⟨g, -, hg⟩ := exists_of_forall₂_right (PlacedField.placesRules hz) hmem
  exact ⟨g, hg⟩

/-- A map whose keys have two examples and whose values have two constraints. -/
theorem rules_placed_map :
    let key : Field := .leaf {
      head := { name := "id" },
      type := .number .int32 {
        range := { gt := some (.int 0) }, samples := { examples := [.int 1, .int 2] } } }
    let value : Field := .leaf {
      head := { name := "text", constraints := [⟨"a", "", "true"⟩, ⟨"b", "", "true"⟩] },
      type := .string { formats := [.uuid] } }
    let f : Field := .map { name := "labels", required := true } key value { min := some 1 }
    let p : Package := {
      config := { package := "shop" }, files := [{ name := "a.proto", messages := [
      { name := "Item", fields := [(1, f)] }] }] }
    ∃ d fd x, p.build = .ok d ∧ fd ∈ d.files ∧ x ∈ fd.everyField ∧
      x.2.rules.map Rule.path = [["map", "min_pairs"], ["map", "keys", "int32", "gt"],
        ["map", "keys", "int32", "example"], ["map", "keys", "int32", "example"],
        ["map", "values", "string", "uuid"], ["map", "values", "cel"], ["map", "values", "cel"],
        ["required"]] ∧
      ∃ g : Field, g.PlacesRules x.2 := by
  intro key value f p
  obtain ⟨d, hd, hpaths⟩ : ∃ d, p.build = .ok d ∧
      (d.files.map fun fd => (fd.everyField.map fun x => x.2.rules.map Rule.path).take 1) = [[
        [["map", "min_pairs"], ["map", "keys", "int32", "gt"], ["map", "keys", "int32", "example"],
          ["map", "keys", "int32", "example"], ["map", "values", "string", "uuid"],
          ["map", "values", "cel"], ["map", "values", "cel"], ["required"]]]] :=
    exists_ok_of_summary (by decide)
  obtain ⟨fd, hfiles, hfields⟩ := List.map_eq_singleton_iff.1 hpaths
  have hfd : fd ∈ d.files := by rw [hfiles]; exact List.mem_singleton.2 rfl
  obtain ⟨x, hx, hpath⟩ := List.mem_map.1
    (List.mem_of_mem_take (hfields ▸ List.mem_singleton.2 rfl))
  exact ⟨d, fd, x, hd, hfd, hx, hpath, rules_placed.2 p d hd fd hfd x hx⟩

end Package

end WireSchema
