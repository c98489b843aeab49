import Mathlib.Data.List.Induction
import Mathlib.Data.List.Nodup
import Patchbay.Proofs.Results
import Patchbay.Proofs.Tables
import Patchbay.Registry

/-!
# Merging modules

A module is made by registrations, one after the other. Modules can be merged exactly when no two of
them contribute one name to one kind of thing. The registry then holds under a name what was last
registered for it in the one module that contributes it. If they cannot be merged, the first name
that comes again is reported, modules in order, functions before types, and names in the order in
which they were first registered.
-/

namespace Patchbay

variable {α σ : Type}

/-! ## Writing one entry after the other -/

namespace Table

/-- The table that some entries leave when they are written one after the other. -/
def ofList (entries : List (String × α)) : Table String α :=
  entries.foldl (fun t entry => put t entry.1 entry.2) []

/-- What stands last under a name. -/
def IsLast (entries : List (String × α)) (name : String) (a : α) : Prop :=
  ∃ before after, entries = before ++ (name, a) :: after ∧ name ∉ after.map Prod.fst

variable {entries : List (String × α)} {name other : String} {a b : α}

theorem ofList_append_one (entries : List (String × α)) (name : String) (a : α) :
    ofList (entries ++ [(name, a)]) = put (ofList entries) name a := by
  rw [ofList, List.foldl_append]
  rfl

theorem isLast_append_one :
    IsLast (entries ++ [(other, b)]) name a ↔
      if other = name then b = a else IsLast entries name a := by
  constructor
  · rintro ⟨before, after, whole, none⟩
    rcases List.eq_nil_or_concat after with rfl | ⟨front, last, rfl⟩
    · obtain ⟨-, same⟩ := List.append_inj' whole rfl
      cases same
      exact (if_pos rfl).symm ▸ rfl
    · rw [List.concat_eq_append] at whole none
      obtain ⟨left, same⟩ := List.append_inj' (by simpa using whole :
        entries ++ [(other, b)] = (before ++ (name, a) :: front) ++ [last]) rfl
      cases same
      rw [List.map_append, List.mem_append, not_or] at none
      have apart : other ≠ name := fun same => none.2 (by simp [same])
      rw [if_neg apart]
      exact ⟨before, front, left, none.1⟩
  · intro last
    split at last
    · next same =>
      subst same last
      exact ⟨entries, [], rfl, by simp⟩
    · next apart =>
      obtain ⟨before, after, rfl, none⟩ := last
      refine ⟨before, after ++ [(other, b)], by simp, ?_⟩
      simp only [List.map_append, List.mem_append, not_or]
      exact ⟨none, by simpa [eq_comm] using apart⟩

theorem find?_ofList : find? (ofList entries) name = some a ↔ IsLast entries name a := by
  induction entries using List.reverseRecOn with
  | nil => simp [ofList, IsLast]
  | append_singleton entries entry ih =>
    obtain ⟨other, b⟩ := entry
    rw [ofList_append_one, find?_put, isLast_append_one]
    split
    · exact Option.some_inj
    · exact ih

/-- The keys stand in the order in which they were first written. -/
theorem keys_ofList (entries : List (String × α)) :
    keys (ofList entries) = (entries.map Prod.fst).eraseDups := by
  induction entries using List.reverseRecOn with
  | nil => rfl
  | append_singleton entries entry ih =>
    obtain ⟨name, a⟩ := entry
    rw [ofList_append_one, List.map_append, List.eraseDups_append, ← ih]
    have known : name ∈ keys (ofList entries) ↔ name ∈ entries.map Prod.fst := by
      rw [ih, List.mem_eraseDups]
    by_cases there : name ∈ keys (ofList entries)
    · obtain ⟨b, found⟩ := exists_of_mem_keys there
      have gone : (List.map Prod.fst [(name, a)]).removeAll (entries.map Prod.fst) = [] := by
        simp [List.removeAll, known.1 there]
      rw [keys_put a found, gone, List.eraseDups_nil, List.append_nil]
    · have kept : (List.map Prod.fst [(name, a)]).removeAll (entries.map Prod.fst) = [name] := by
        simp [List.removeAll, mt known.2 there]
      rw [keys_put_of_not_mem a there, kept]
      rfl

theorem nodup_keys_ofList (entries : List (String × α)) : (keys (ofList entries)).Nodup := by
  induction entries using List.reverseRecOn with
  | nil => exact List.nodup_nil
  | append_singleton entries entry ih =>
    rw [ofList_append_one]
    exact nodup_keys_put ih _ _

end Table

/-! ## Modules as they are made -/

/-- What a module contributes names to. -/
inductive Kind where
  | function
  | componentType
  deriving DecidableEq

namespace Kind

def title : Kind → String
  | function => "function"
  | componentType => "component type"

/-- What is registered under a name. -/
def Item (σ : Type) : Kind → Type
  | function => Operator
  | componentType => Factory σ

end Kind

def Module.table (m : Module σ) : (kind : Kind) → Table String (kind.Item σ)
  | .function => m.functions
  | .componentType => m.types

inductive Registration (σ : Type) where
  | function (name : String) (op : Operator)
  | componentType (name : String) (factory : Factory σ)

/-- The name and the item, if they are of the kind. -/
def Registration.entry? : (kind : Kind) → Registration σ → Option (String × kind.Item σ)
  | .function, function name op => some (name, op)
  | .componentType, componentType name factory => some (name, factory)
  | _, _ => none

def Module.register (m : Module σ) : Registration σ → Module σ
  | .function name op => m.function name op
  | .componentType name factory => m.componentType name factory

/-- How a module is made: its name and its registrations in order. -/
structure Blueprint (σ : Type) where
  name : String
  given : List (Registration σ)

/-- A name as a module contributes it. -/
structure Listed where
  kind : Kind
  name : String
  source : String

def Listed.key (l : Listed) : Kind × String := (l.kind, l.name)

/-- The names that a module contributes: functions before component types. -/
def Module.listing (m : Module σ) : List Listed :=
  [Kind.function, Kind.componentType].flatMap fun kind =>
    (Table.keys (m.table kind)).map fun name => ⟨kind, name, m.name⟩

namespace Blueprint

def built (b : Blueprint σ) : Module σ := b.given.foldl Module.register (Module.empty b.name)

/-- What is registered of a kind, in order. -/
def entries (b : Blueprint σ) (kind : Kind) : List (String × kind.Item σ) :=
  b.given.filterMap (Registration.entry? kind)

def names (b : Blueprint σ) (kind : Kind) : List String := (b.entries kind).map Prod.fst

/-- The names in the order in which they were first registered, functions before component types. -/
def listing (b : Blueprint σ) : List Listed :=
  [Kind.function, Kind.componentType].flatMap fun kind =>
    (b.names kind).eraseDups.map fun name => ⟨kind, name, b.name⟩

theorem table_foldl (given : List (Registration σ)) (m : Module σ) (kind : Kind) :
    (given.foldl Module.register m).table kind =
      (given.filterMap (Registration.entry? kind)).foldl
        (fun t entry => Table.put t entry.1 entry.2) (m.table kind) := by
  induction given generalizing m with
  | nil => rfl
  | cons r rest ih =>
    rw [List.foldl_cons, ih]
    cases kind <;> cases r <;> rfl

theorem table_built (b : Blueprint σ) (kind : Kind) :
    b.built.table kind = Table.ofList (b.entries kind) := by
  rw [built, table_foldl]
  cases kind <;> rfl

theorem name_built (b : Blueprint σ) : b.built.name = b.name := by
  have kept (given : List (Registration σ)) (m : Module σ) :
      (given.foldl Module.register m).name = m.name := by
    induction given generalizing m with
    | nil => rfl
    | cons r rest ih =>
      rw [List.foldl_cons, ih]
      cases r <;> rfl
  exact kept b.given (Module.empty b.name)

theorem listing_built (b : Blueprint σ) : b.built.listing = b.listing := by
  simp only [Module.listing, listing, table_built, Table.keys_ofList, name_built, names]

end Blueprint

/-! ## Clashes -/

/-- A name comes again in a listing, and this is the fault that reports the first one to do so. -/
def FirstClash (listing : List Listed) (f : Fault) : Prop :=
  ∃ before clash after first, listing = before ++ clash :: after ∧
    (before.map Listed.key).Nodup ∧ first ∈ before ∧ first.key = clash.key ∧
    f = .duplicateName clash.kind.title clash.name first.source clash.source

namespace FirstClash

variable {listing behind : List Listed} {f g : Fault}

theorem append (clashes : FirstClash listing f) (behind : List Listed) :
    FirstClash (listing ++ behind) f := by
  obtain ⟨before, clash, after, first, rfl, rest⟩ := clashes
  exact ⟨before, clash, after ++ behind, first, by simp, rest⟩

theorem not_nodup_of_again {before after : List Listed} {clash first : Listed}
    (member : first ∈ before) (same : first.key = clash.key) :
    ¬ ((before ++ clash :: after).map Listed.key).Nodup := by
  intro distinct
  rw [List.map_append, List.map_cons] at distinct
  exact (List.nodup_append.1 distinct).2.2 first.key (List.mem_map_of_mem member) clash.key
    List.mem_cons_self same

theorem not_nodup (clashes : FirstClash listing f) : ¬ (listing.map Listed.key).Nodup := by
  obtain ⟨before, clash, after, first, rfl, -, member, same, -⟩ := clashes
  exact not_nodup_of_again member same

theorem unique (clashes : FirstClash listing f) (others : FirstClash listing g) : f = g := by
  obtain ⟨before, clash, after, first, rfl, distinct, member, same, rfl⟩ := clashes
  obtain ⟨before', clash', after', first', whole, distinct', member', same', rfl⟩ := others
  -- neither clash is among the names before the other one, which are distinct
  rcases List.append_eq_append_iff.1 whole with ⟨between, rfl, rest⟩ | ⟨between, rfl, rest⟩
  · cases between with
    | nil =>
      rw [List.append_nil] at member'
      obtain ⟨rfl, -⟩ := List.cons.inj rest
      rw [List.inj_on_of_nodup_map distinct member member' (same.trans same'.symm)]
    | cons x others =>
      obtain ⟨rfl, -⟩ := List.cons.inj rest
      exact absurd distinct' (not_nodup_of_again member same)
  · cases between with
    | nil =>
      rw [List.append_nil] at member distinct
      obtain ⟨rfl, -⟩ := List.cons.inj rest
      rw [List.inj_on_of_nodup_map distinct member member' (same.trans same'.symm)]
    | cons x others =>
      obtain ⟨rfl, -⟩ := List.cons.inj rest
      exact absurd distinct (not_nodup_of_again member' same')

end FirstClash

/-! ## Merging -/

namespace Registry

variable {r next : Registry σ} {done : List (Module σ)} {m : Module σ} {f : Fault}

def table (r : Registry σ) : (kind : Kind) → Table String (Entry (kind.Item σ))
  | .function => r.functions
  | .componentType => r.types

def item? (r : Registry σ) (kind : Kind) (name : String) : Option (kind.Item σ) :=
  (Table.find? (r.table kind) name).map Entry.item

/-- The module that a name is from. -/
def source? (r : Registry σ) (kind : Kind) (name : String) : Option String :=
  (Table.find? (r.table kind) name).map Entry.source

/-- The entry of a registry for one of a module. -/
def tag (source : String) (entry : String × α) : String × Entry α :=
  (entry.1, ⟨source, entry.2⟩)

/-- Either no name is there already, and all are added; or the first that is there is reported. -/
theorem merge_cases (kind source : String) (items : Table String α)
    (distinct : (Table.keys items).Nodup) (t : Table String (Entry α)) :
    ((∀ name ∈ Table.keys items, Table.find? t name = none) ∧
        merge kind source t items = .ok (t ++ items.map (tag source))) ∨
      ∃ before name after first, Table.keys items = before ++ name :: after ∧
        (∀ other ∈ before, Table.find? t other = none) ∧ Table.find? t name = some first ∧
        merge kind source t items = .error (.duplicateName kind name first.source source) := by
  induction items generalizing t with
  | nil => exact .inl ⟨nofun, by simp [merge]⟩
  | cons entry rest ih =>
    obtain ⟨name, item⟩ := entry
    rw [merge]
    cases known : Table.find? t name with
    | some first => exact .inr ⟨[], name, Table.keys rest, first, rfl, nofun, known, rfl⟩
    | none =>
      obtain ⟨apart, distinct⟩ := List.nodup_cons.1 distinct
      have added {other : String} (member : other ∈ Table.keys rest) :
          Table.find? (t ++ [tag source (name, item)]) other = Table.find? t other := by
        have different : name ≠ other := fun same => apart (same ▸ member)
        rw [Table.find?_append, Table.find?_cons, tag, if_neg different, Table.find?_nil,
          Option.or_none]
      rcases ih distinct (t ++ [tag source (name, item)]) with
        ⟨fresh, merged⟩ | ⟨before, again, after, first, whole, fresh, found, clashed⟩
      · refine .inl ⟨?_, ?_⟩
        · intro other member
          rcases List.mem_cons.1 member with rfl | later
          · exact known
          · rw [← added later]
            exact fresh other later
        · exact merged.trans (by rw [List.map_cons, List.append_assoc, List.singleton_append])
      · have inside {other : String} (member : other ∈ before) : other ∈ Table.keys rest :=
          whole ▸ List.mem_append_left _ member
        have here : again ∈ Table.keys rest := by
          rw [whole]
          simp
        refine .inr ⟨name :: before, again, after, first, congrArg (name :: ·) whole, ?_, ?_, clashed⟩
        · intro other member
          rcases List.mem_cons.1 member with rfl | later
          · exact known
          · rw [← added (inside later)]
            exact fresh other later
        · rw [← added here]
          exact found

/-- A registry holds the entries of some modules, and no name of a kind is among them twice. -/
structure Merges (r : Registry σ) (done : List (Module σ)) : Prop where
  table : ∀ kind, r.table kind = done.flatMap fun m => (m.table kind).map (tag m.name)
  distinct : ((done.flatMap Module.listing).map Listed.key).Nodup

theorem mem_listing {l : Listed} :
    l ∈ m.listing ↔ l.name ∈ Table.keys (m.table l.kind) ∧ l.source = m.name := by
  obtain ⟨kind, name, source⟩ := l
  cases kind <;> simp [Module.listing, eq_comm]

theorem keys_map_tag (source : String) (t : Table String α) :
    Table.keys (t.map (tag source)) = Table.keys t := by
  simp [Table.keys, tag, Function.comp_def]

/-- The names of one kind in a listing. -/
def ofKind (kind : Kind) (key : Kind × String) : Option String :=
  if key.1 = kind then some key.2 else none

theorem filterMap_listing (m : Module σ) (kind : Kind) :
    (m.listing.map Listed.key).filterMap (ofKind kind) = Table.keys (m.table kind) := by
  cases kind <;> simp [Module.listing, Listed.key, ofKind, Function.comp_def]

theorem Merges.keys_table (merges : Merges r done) (kind : Kind) :
    Table.keys (r.table kind) =
      ((done.flatMap Module.listing).map Listed.key).filterMap (ofKind kind) := by
  rw [merges.table, Table.keys, List.map_flatMap, List.map_flatMap, List.filterMap_flatMap]
  refine List.flatMap_congr fun m _ => ?_
  rw [filterMap_listing]
  exact keys_map_tag m.name _

theorem Merges.nodup_keys (merges : Merges r done) (kind : Kind) :
    (Table.keys (r.table kind)).Nodup := by
  rw [merges.keys_table]
  refine merges.distinct.filterMap fun one other name first second => ?_
  obtain ⟨k, n⟩ := one
  obtain ⟨k', n'⟩ := other
  simp_all [ofKind]

/-- What a registry has under a name is from a module that has it there. -/
theorem Merges.find?_eq_some_iff (merges : Merges r done) {kind : Kind} {name : String}
    {e : Entry (kind.Item σ)} :
    Table.find? (r.table kind) name = some e ↔
      ∃ m ∈ done, (name, e.item) ∈ m.table kind ∧ e.source = m.name := by
  have listed : (name, e) ∈ r.table kind ↔
      ∃ m ∈ done, (name, e.item) ∈ m.table kind ∧ e.source = m.name := by
    rw [merges.table, List.mem_flatMap]
    refine exists_congr fun m => and_congr_right fun _ => ?_
    obtain ⟨source, item⟩ := e
    simp [tag, eq_comm]
  rw [← listed]
  exact ⟨Table.mem_of_find?, Table.find?_of_mem (merges.nodup_keys kind)⟩

theorem Merges.source?_eq_some_iff (merges : Merges r done) {kind : Kind} {name source : String} :
    r.source? kind name = some source ↔ ⟨kind, name, source⟩ ∈ done.flatMap Module.listing := by
  rw [source?, Option.map_eq_some_iff, List.mem_flatMap]
  constructor
  · rintro ⟨e, found, rfl⟩
    obtain ⟨m, member, there, from_⟩ := merges.find?_eq_some_iff.1 found
    exact ⟨m, member, mem_listing.2 ⟨List.mem_map_of_mem there, from_⟩⟩
  · rintro ⟨m, member, listed⟩
    obtain ⟨there, rfl⟩ := mem_listing.1 listed
    obtain ⟨item, found⟩ := Table.exists_of_mem_keys there
    exact ⟨⟨m.name, item⟩,
      merges.find?_eq_some_iff.2 ⟨m, member, Table.mem_of_find? found, rfl⟩, rfl⟩

theorem Merges.item?_eq_some_iff (merges : Merges r done)
    (proper : ∀ m ∈ done, ∀ kind, (Table.keys (m.table kind)).Nodup) {kind : Kind} {name : String}
    {item : kind.Item σ} :
    r.item? kind name = some item ↔ ∃ m ∈ done, Table.find? (m.table kind) name = some item := by
  rw [item?, Option.map_eq_some_iff]
  constructor
  · rintro ⟨e, found, rfl⟩
    obtain ⟨m, member, there, -⟩ := merges.find?_eq_some_iff.1 found
    exact ⟨m, member, Table.find?_of_mem (proper m member kind) there⟩
  · rintro ⟨m, member, found⟩
    exact ⟨⟨m.name, item⟩,
      merges.find?_eq_some_iff.2 ⟨m, member, Table.mem_of_find? found, rfl⟩, rfl⟩

/-- No name of a module comes again in it. -/
theorem nodup_listing (proper : ∀ kind, (Table.keys (m.table kind)).Nodup) :
    (m.listing.map Listed.key).Nodup := by
  have each (kind : Kind) : ((Table.keys (m.table kind)).map fun name => (kind, name)).Nodup :=
    (proper kind).map fun a b same => (Prod.mk.inj same).2
  simp only [Module.listing, List.flatMap_cons, List.flatMap_nil, List.append_nil, List.map_append,
    List.map_map]
  refine List.nodup_append.2 ⟨each .function, each .componentType, ?_⟩
  rintro key first other second rfl
  obtain ⟨name, -, rfl⟩ := List.mem_map.1 first
  obtain ⟨name', -, same⟩ := List.mem_map.1 second
  cases same

/-- The names that a registry holds, and further ones of a module that it does not hold. -/
theorem Merges.distinct_append (merges : Merges r done)
    (proper : ∀ kind, (Table.keys (m.table kind)).Nodup) {front back : List Listed}
    (whole : m.listing = front ++ back) (fresh : ∀ l ∈ front, r.source? l.kind l.name = none) :
    ((done.flatMap Module.listing ++ front).map Listed.key).Nodup := by
  have own := nodup_listing proper
  rw [whole, List.map_append] at own
  rw [List.map_append]
  refine List.nodup_append.2 ⟨merges.distinct, (List.nodup_append.1 own).1, ?_⟩
  rintro key first other second rfl
  obtain ⟨l, known, rfl⟩ := List.mem_map.1 first
  obtain ⟨l', member, same⟩ := List.mem_map.1 second
  obtain ⟨kinds, names⟩ := Prod.mk.inj same
  have held := merges.source?_eq_some_iff.2 known
  rw [← kinds, ← names, fresh l' member] at held
  cases held

theorem Merges.clash (merges : Merges r done)
    (proper : ∀ kind, (Table.keys (m.table kind)).Nodup) (front back : List Listed) (l : Listed)
    {source : String} (whole : m.listing = front ++ l :: back)
    (fresh : ∀ l ∈ front, r.source? l.kind l.name = none)
    (held : r.source? l.kind l.name = some source) :
    FirstClash ((done ++ [m]).flatMap Module.listing)
      (.duplicateName l.kind.title l.name source m.name) := by
  have own : l.source = m.name := (mem_listing.1 (whole ▸ by simp)).2
  refine ⟨done.flatMap Module.listing ++ front, l, back, ⟨l.kind, l.name, source⟩, ?_,
    merges.distinct_append proper whole fresh, ?_, rfl, by rw [own]⟩
  · simp [whole]
  · exact List.mem_append_left _ (merges.source?_eq_some_iff.1 held)

theorem source?_eq_none_iff {kind : Kind} {name : String} :
    r.source? kind name = none ↔ Table.find? (r.table kind) name = none :=
  Option.map_eq_none_iff

theorem fresh_listed (kind : Kind) {names : List String} {l : Listed}
    (fresh : ∀ name ∈ names, Table.find? (r.table kind) name = none)
    (member : l ∈ names.map fun name => (⟨kind, name, m.name⟩ : Listed)) :
    r.source? l.kind l.name = none := by
  obtain ⟨name, inside, rfl⟩ := List.mem_map.1 member
  exact source?_eq_none_iff.2 (fresh name inside)

/-- The names of functions and of component types, as a module contributes them. -/
theorem listing_eq (m : Module σ) :
    m.listing = (Table.keys m.functions).map (fun name => ⟨.function, name, m.name⟩) ++
      (Table.keys m.types).map fun name => ⟨.componentType, name, m.name⟩ :=
  congrArg (_ ++ ·) (List.append_nil _)

/-- A module is merged, or its first name that is known already is reported. -/
theorem Merges.add (merges : Merges r done)
    (proper : ∀ kind, (Table.keys (m.table kind)).Nodup) :
    (∃ next, r.add m = .ok next ∧ Merges next (done ++ [m])) ∨
      ∃ f, r.add m = .error f ∧ FirstClash ((done ++ [m]).flatMap Module.listing) f := by
  unfold Registry.add
  rcases merge_cases "function" m.name m.functions (proper .function) r.functions with
    ⟨freshFunctions, functions⟩ | ⟨before, name, after, first, whole, fresh, held, clashed⟩
  · rcases merge_cases "component type" m.name m.types (proper .componentType) r.types with
      ⟨freshTypes, types⟩ | ⟨before, name, after, first, whole, fresh, held, clashed⟩
    · refine .inl ⟨⟨r.functions ++ m.functions.map (tag m.name), r.types ++ m.types.map (tag m.name)⟩,
        ?_, ?_, ?_⟩
      · rw [functions, types]
        rfl
      · intro kind
        rw [List.flatMap_append, ← merges.table, List.flatMap_singleton]
        cases kind <;> rfl
      · rw [List.flatMap_append, List.flatMap_singleton]
        refine merges.distinct_append proper (List.append_nil _).symm fun l member => ?_
        rw [listing_eq, List.mem_append] at member
        exact member.elim (fresh_listed .function freshFunctions)
          (fresh_listed .componentType freshTypes)
    · refine .inr ⟨_, ?_, merges.clash proper
        ((Table.keys m.functions).map (fun name => ⟨.function, name, m.name⟩) ++
          before.map fun name => ⟨.componentType, name, m.name⟩)
        (after.map fun name => ⟨.componentType, name, m.name⟩)
        ⟨.componentType, name, m.name⟩ ?_ ?_ (congrArg (Option.map Entry.source) held)⟩
      · rw [functions, clashed]
        rfl
      · simp [listing_eq, whole]
      · intro l member
        exact (List.mem_append.1 member).elim (fresh_listed .function freshFunctions)
          (fresh_listed .componentType fresh)
  · refine .inr ⟨_, ?_, merges.clash proper (before.map fun name => ⟨.function, name, m.name⟩)
      (after.map (fun name => ⟨.function, name, m.name⟩) ++
        (Table.keys m.types).map fun name => ⟨.componentType, name, m.name⟩)
      ⟨.function, name, m.name⟩ ?_ (fun l member => fresh_listed .function fresh member)
      (congrArg (Option.map Entry.source) held)⟩
    · rw [clashed]
      rfl
    · simp [listing_eq, whole]

theorem merges_empty : Merges (Registry.empty : Registry σ) [] where
  table kind := by cases kind <;> rfl
  distinct := List.nodup_nil

/-- Modules are merged, or the first name that comes again is reported. -/
theorem ofModules_cases (modules : List (Module σ))
    (proper : ∀ m ∈ modules, ∀ kind, (Table.keys (m.table kind)).Nodup) :
    (∃ r, ofModules modules = .ok r ∧ Merges r modules) ∨
      ∃ f, ofModules modules = .error f ∧ FirstClash (modules.flatMap Module.listing) f := by
  have run (rest done : List (Module σ)) (r : Registry σ) (merges : Merges r done)
      (proper : ∀ m ∈ rest, ∀ kind, (Table.keys (m.table kind)).Nodup) :
      (∃ next, rest.foldlM Registry.add r = .ok next ∧ Merges next (done ++ rest)) ∨
        ∃ f, rest.foldlM Registry.add r = .error f ∧
          FirstClash ((done ++ rest).flatMap Module.listing) f := by
    induction rest generalizing done r with
    | nil =>
      rw [List.append_nil]
      exact .inl ⟨r, rfl, merges⟩
    | cons m rest ih =>
      rw [List.foldlM_cons]
      rcases merges.add (proper m List.mem_cons_self) with
        ⟨next, added, merged⟩ | ⟨f, clashed, clash⟩
      · rw [added, ok_bind, List.append_cons]
        exact ih _ next merged fun m member => proper m (List.mem_cons_of_mem _ member)
      · rw [clashed, error_bind, List.append_cons, List.flatMap_append]
        exact .inr ⟨f, rfl, clash.append _⟩
  exact run modules [] Registry.empty merges_empty proper

end Registry

/-! ## Merging modules as they are made -/

namespace Blueprint

variable {b : Blueprint σ} {blueprints : List (Blueprint σ)}

theorem nodup_keys_table (b : Blueprint σ) (kind : Kind) :
    (Table.keys (b.built.table kind)).Nodup := by
  rw [table_built]
  exact Table.nodup_keys_ofList _

theorem mem_keys_listing {key : Kind × String} :
    key ∈ b.listing.map Listed.key ↔ key.2 ∈ b.names key.1 := by
  obtain ⟨kind, name⟩ := key
  cases kind <;> simp [listing, Listed.key, List.mem_eraseDups]

theorem flatMap_listing (blueprints : List (Blueprint σ)) :
    (blueprints.map Blueprint.built).flatMap Module.listing =
      blueprints.flatMap Blueprint.listing := by
  rw [List.flatMap_map]
  exact List.flatMap_congr fun b _ => b.listing_built

/-- No name comes again in the listing when no two of the modules share one. -/
theorem nodup_listing_iff :
    ((blueprints.flatMap Blueprint.listing).map Listed.key).Nodup ↔
      blueprints.Pairwise fun b c => ∀ kind name, name ∈ b.names kind → name ∉ c.names kind := by
  rw [List.map_flatMap, List.nodup_flatMap]
  have own : ∀ b ∈ blueprints, (b.listing.map Listed.key).Nodup := by
    intro b _
    rw [← b.listing_built]
    exact Registry.nodup_listing b.nodup_keys_table
  rw [and_iff_right own]
  refine List.Pairwise.iff fun b c => ?_
  simp only [Function.onFun, List.Disjoint, mem_keys_listing, Prod.forall]

theorem ofModules_cases (blueprints : List (Blueprint σ)) :
    (∃ r, Registry.ofModules (blueprints.map Blueprint.built) = .ok r ∧
        Registry.Merges r (blueprints.map Blueprint.built)) ∨
      ∃ f, Registry.ofModules (blueprints.map Blueprint.built) = .error f ∧
        FirstClash (blueprints.flatMap Blueprint.listing) f := by
  rw [← flatMap_listing]
  refine Registry.ofModules_cases _ fun m member => ?_
  obtain ⟨b, -, rfl⟩ := List.mem_map.1 member
  exact b.nodup_keys_table

/-- A registry has under a name what was last registered for it. -/
theorem item?_of_merges {r : Registry σ}
    (merges : Registry.Merges r (blueprints.map Blueprint.built)) (kind : Kind) {name : String}
    {item : kind.Item σ} :
    r.item? kind name = some item ↔ ∃ b ∈ blueprints, Table.IsLast (b.entries kind) name item := by
  have proper : ∀ m ∈ blueprints.map Blueprint.built, ∀ kind,
      (Table.keys (m.table kind)).Nodup := by
    intro m member
    obtain ⟨b, -, rfl⟩ := List.mem_map.1 member
    exact b.nodup_keys_table
  rw [merges.item?_eq_some_iff proper]
  simp only [List.mem_map, exists_exists_and_eq_and, table_built, Table.find?_ofList]

end Blueprint

/-! ## Main result -/

open Blueprint in
/-- Modules can be merged exactly when no two of them contribute one name to one kind of thing. A
name then stands for what the one module that contributes it has registered last, and for nothing if
there is none. Otherwise the first name that comes again is reported, with the module that had it
first. -/
theorem modules_merge (blueprints : List (Blueprint σ)) :
    ((∃ r, Registry.ofModules (blueprints.map Blueprint.built) = .ok r) ↔
      blueprints.Pairwise fun b c => ∀ kind name, name ∈ b.names kind → name ∉ c.names kind) ∧
    (∀ r, Registry.ofModules (blueprints.map Blueprint.built) = .ok r →
      (∀ name op, r.function? name = some op ↔
        ∃ b ∈ blueprints, Table.IsLast (b.entries .function) name op) ∧
      ∀ name factory, r.factory? name = some factory ↔
        ∃ b ∈ blueprints, Table.IsLast (b.entries .componentType) name factory) ∧
    ∀ f, Registry.ofModules (blueprints.map Blueprint.built) = .error f ↔
      FirstClash (blueprints.flatMap Blueprint.listing) f := by
  rw [← nodup_listing_iff]
  rcases ofModules_cases blueprints with ⟨r, merged, merges⟩ | ⟨f, clashed, clashes⟩
  · have distinct := merges.distinct
    rw [flatMap_listing] at distinct
    refine ⟨⟨fun _ => distinct, fun _ => ⟨r, merged⟩⟩, fun next same => ?_, fun f => ?_⟩
    · cases merged.symm.trans same
      exact ⟨fun name op => item?_of_merges merges .function,
        fun name factory => item?_of_merges merges .componentType⟩
    · rw [merged]
      exact ⟨nofun, fun clashes => absurd distinct clashes.not_nodup⟩
  · refine ⟨⟨?_, fun distinct => absurd distinct clashes.not_nodup⟩, fun r merged => ?_, fun g => ?_⟩
    · rintro ⟨r, merged⟩
      rw [clashed] at merged
      cases merged
    · rw [clashed] at merged
      cases merged
    · rw [clashed, Except.error.injEq]
      exact ⟨fun same => same ▸ clashes, clashes.unique⟩

/-- A function that is registered twice, and shares its name with a component type. -/
def sharedNames : List (Blueprint Unit) :=
  [⟨"a", [.function "x" (.instant fun _ => .ok .null), .componentType "x" fun _ => .error .cancelled,
      .function "x" (.instant fun v => .ok v)]⟩,
    ⟨"b", [.function "y" (.instant fun _ => .ok .null)]⟩]

/-- A module that repeats a component type and then a function of the one before it. -/
def clashingNames : List (Blueprint Unit) :=
  sharedNames ++ [⟨"c", [.componentType "x" fun _ => .error .cancelled,
    .function "z" (.instant fun _ => .ok .null), .function "y" (.instant fun _ => .ok .null)]⟩]

theorem modules_merge_shared :
    (∃ r, Registry.ofModules (sharedNames.map Blueprint.built) = .ok r ∧
      r.function? "x" = some (.instant fun v => .ok v) ∧ r.function? "z" = none) ∧
    Registry.ofModules (clashingNames.map Blueprint.built) =
      .error (.duplicateName "function" "y" "b" "c") := by
  refine ⟨?_, ((modules_merge clashingNames).2.2 _).2 ?_⟩
  · obtain ⟨r, merged⟩ : ∃ r, Registry.ofModules (sharedNames.map Blueprint.built) = .ok r :=
      ⟨_, rfl⟩
    have found := ((modules_merge sharedNames).2.1 r merged).1
    refine ⟨r, merged, (found _ _).2 ⟨_, List.mem_cons_self,
      [("x", .instant fun _ => .ok .null)], [], rfl, by simp⟩, ?_⟩
    cases merged
    rfl
  · exact ⟨[⟨.function, "x", "a"⟩, ⟨.componentType, "x", "a"⟩, ⟨.function, "y", "b"⟩,
      ⟨.function, "z", "c"⟩], ⟨.function, "y", "c"⟩, [⟨.componentType, "x", "c"⟩],
      ⟨.function, "y", "b"⟩, rfl, by decide, by simp, rfl, rfl⟩

end Patchbay
