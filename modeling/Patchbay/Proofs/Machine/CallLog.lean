import Mathlib.Data.List.Induction
import Patchbay.Proofs.Tables
import Patchbay.Machine

/-!
# The log of calls

What happens to the calls of a machine, in order: a call is taken on or turned away, its end is told,
and the machine hears of it; a cancel names a key, a component is deleted, the machine is stopped. By
which entry a call is found for cancelling, and which calls were tripped, is read off such a log.

A call is the current one under its key as long as nothing else happened under that key since it was
taken on. If no client starts a call under a key while an earlier one is outstanding there, the
current calls are the outstanding ones.
-/

namespace Patchbay.Machine

/-- A call that was taken on: the number of its request, its key, and the instance that it is for; a
call of a function is for none. -/
structure Call where
  serial : Nat
  key : CallKey
  host : Option Nat
deriving DecidableEq

/-- What happens to calls. The end of a call is told by the task or instance that ran it, and heard
later by the machine. -/
inductive CallEvent where
  | taken (call : Call)
  | turnedAway (key : CallKey)
  | told (call : Call)
  | heard (call : Call)
  | cancel (key : CallKey)
  | deleted (id : Nat)
  | stopped
deriving DecidableEq

namespace CallEvent

def taken? : CallEvent → Option Call
  | taken call => some call
  | _ => none

def told? : CallEvent → Option Call
  | told call => some call
  | _ => none

def heard? : CallEvent → Option Call
  | heard call => some call
  | _ => none

/-- The key under which a call is started, with or without success. -/
def starts? : CallEvent → Option CallKey
  | taken call => some call.key
  | turnedAway key => some key
  | _ => none

/-- After this, no earlier call is found under the key. -/
def Clears (key : CallKey) : CallEvent → Prop
  | taken call | heard call => call.key = key
  | turnedAway other => other = key
  | _ => False

end CallEvent

open CallEvent

variable {es : List CallEvent} {e : CallEvent} {call c : Call} {key : CallKey}

def takenIn (es : List CallEvent) : List Call := es.filterMap taken?

def toldIn (es : List CallEvent) : List Call := es.filterMap told?

def heardIn (es : List CallEvent) : List Call := es.filterMap heard?

section

variable (es : List CallEvent) (e : CallEvent)

private theorem filterMap_append_one (news : CallEvent → Option Call) :
    (es ++ [e]).filterMap news = es.filterMap news ++ (news e).toList := by
  rw [List.filterMap_append]
  cases news : news e <;> simp [news]

@[simp] theorem takenIn_append_one : takenIn (es ++ [e]) = takenIn es ++ e.taken?.toList :=
  filterMap_append_one es e taken?

@[simp] theorem toldIn_append_one : toldIn (es ++ [e]) = toldIn es ++ e.told?.toList :=
  filterMap_append_one es e told?

@[simp] theorem heardIn_append_one : heardIn (es ++ [e]) = heardIn es ++ e.heard?.toList :=
  filterMap_append_one es e heard?

end

/-- The calls of which there is news of a kind are those with an event of that kind. -/
private theorem mem_filterMap_news {news : CallEvent → Option Call} {kind : Call → CallEvent}
    (inverse : ∀ e, news e = some call ↔ e = kind call) :
    call ∈ es.filterMap news ↔ kind call ∈ es := by
  simp [List.mem_filterMap, inverse]

@[simp] theorem mem_takenIn : call ∈ takenIn es ↔ .taken call ∈ es :=
  mem_filterMap_news fun e => by cases e <;> simp [taken?]

@[simp] theorem mem_toldIn : call ∈ toldIn es ↔ .told call ∈ es :=
  mem_filterMap_news fun e => by cases e <;> simp [told?]

@[simp] theorem mem_heardIn : call ∈ heardIn es ↔ .heard call ∈ es :=
  mem_filterMap_news fun e => by cases e <;> simp [heard?]

/-- The calls for an instance, or of functions, of which the end is not told yet. -/
def untold (es : List CallEvent) (host : Option Nat) : List Call :=
  (takenIn es).filter fun call => call.host = host ∧ .told call ∉ es

theorem mem_untold {host : Option Nat} :
    call ∈ untold es host ↔ .taken call ∈ es ∧ call.host = host ∧ .told call ∉ es := by
  simp [untold]

theorem untold_taken (host : Option Nat) (fresh : .told call ∉ es) :
    untold (es ++ [.taken call]) host =
      untold es host ++ if call.host = host then [call] else [] := by
  simp only [untold, takenIn_append_one, List.filter_append, List.mem_append, List.mem_singleton,
    reduceCtorEq, or_false]
  split <;> simp_all [taken?]

theorem untold_told (host : Option Nat) :
    untold (es ++ [.told call]) host = (untold es host).filter (· ≠ call) := by
  simp only [untold, takenIn_append_one, List.filter_filter, taken?, Option.toList_none,
    List.append_nil]
  apply List.filter_congr
  intro c _
  simp only [List.mem_append, List.mem_singleton, CallEvent.told.injEq, not_or]
  grind

/-- What is no news of a call leaves the untold ones as they are. -/
theorem untold_append_one (host : Option Nat) (untaken : e.taken? = none) (silent : e.told? = none) :
    untold (es ++ [e]) host = untold es host := by
  have other (call : Call) : .told call ≠ e := by
    rintro rfl
    cases silent
  simp [untold, untaken, other]

/-! ## Always -/

/-- Something holds of every event and the events before it. -/
def Always (P : List CallEvent → CallEvent → Prop) (es : List CallEvent) : Prop :=
  ∀ before e, before ++ [e] <+: es → P before e

theorem always_append_one {P : List CallEvent → CallEvent → Prop} :
    Always P (es ++ [e]) ↔ Always P es ∧ P es e := by
  constructor
  · intro always
    exact ⟨fun before e within => always before e (List.prefix_concat_iff.2 (.inr within)),
      always es e (List.prefix_refl _)⟩
  · rintro ⟨always, last⟩ before e within
    rcases List.prefix_concat_iff.1 within with whole | earlier
    · obtain ⟨rfl, rfl⟩ := List.append_singleton_inj.1 whole
      exact last
    · exact always before e earlier

theorem Always.of_prefix {P : List CallEvent → CallEvent → Prop} {fs : List CallEvent}
    (always : Always P es) (within : fs <+: es) : Always P fs :=
  fun before e early => always before e (early.trans within)

theorem always_nil (P : List CallEvent → CallEvent → Prop) : Always P [] := by
  intro before e within
  simp at within

instance {P : List CallEvent → CallEvent → Prop} [∀ before e, Decidable (P before e)] :
    (es : List CallEvent) → Decidable (Always P es) := fun es =>
  decidable_of_iff (∀ n, (inside : n < es.length) → P (es.take n) es[n]) (by
    constructor
    · rintro each before e ⟨after, rfl⟩
      simpa using each before.length (by simp)
    · intro always n inside
      exact always _ _ (List.take_concat_get' es n inside ▸ List.take_prefix (n + 1) es))

/-! ## The books -/

/-- By which number a call is found for cancelling, and which were tripped. -/
structure Books where
  inflight : Table CallKey Nat
  tripped : List Nat

/-- The books after one more event. -/
def Books.note (b : Books) : CallEvent → Books
  | .taken call => { b with inflight := Table.put b.inflight call.key call.serial }
  | .turnedAway key => { b with inflight := Table.erase b.inflight key }
  | .heard call => { b with inflight := Table.erase b.inflight call.key }
  | .cancel key => { b with tripped := (Table.find? b.inflight key).toList ++ b.tripped }
  | _ => b

/-- What a log says. -/
def booksOf (es : List CallEvent) : Books := es.foldl Books.note ⟨[], []⟩

@[simp] theorem booksOf_append_one (es : List CallEvent) (e : CallEvent) :
    booksOf (es ++ [e]) = (booksOf es).note e := List.foldl_concat ..

/-- Since the call was taken on, nothing else happened under its key. -/
def Current (es : List CallEvent) (call : Call) : Prop :=
  ∃ before after, es = before ++ .taken call :: after ∧ ∀ e ∈ after, ¬ e.Clears call.key

theorem Current.mem (current : Current es call) : .taken call ∈ es := by
  obtain ⟨before, after, rfl, -⟩ := current
  simp

theorem current_append_one :
    Current (es ++ [e]) call ↔ e = .taken call ∨ Current es call ∧ ¬ e.Clears call.key := by
  constructor
  · rintro ⟨before, after, split, free⟩
    rcases List.eq_nil_or_concat after with rfl | ⟨after, last, rfl⟩
    · exact .inl (List.append_singleton_inj.1 split).2
    · rw [List.concat_eq_append] at split free
      rw [← List.cons_append, ← List.append_assoc, List.append_singleton_inj] at split
      obtain ⟨rfl, rfl⟩ := split
      exact .inr ⟨⟨before, after, rfl, fun e member => free e (by simp [member])⟩,
        free _ (by simp)⟩
  · rintro (rfl | ⟨⟨before, after, rfl, free⟩, last⟩)
    · exact ⟨es, [], rfl, by simp⟩
    · refine ⟨before, after ++ [e], by simp, fun f member => ?_⟩
      rcases List.mem_append.1 member with early | late
      · exact free f early
      · exact List.mem_singleton.1 late ▸ last

/-- Under a key, there is one current call at most. -/
theorem Current.unique (first : Current es call) (second : Current es c) (same : call.key = c.key) :
    call = c := by
  induction es using List.reverseRecOn with
  | nil => simpa using first.mem
  | append_singleton es e ih =>
    rw [current_append_one] at first second
    rcases first with rfl | ⟨first, kept⟩ <;> rcases second with taken | ⟨second, left⟩
    · exact CallEvent.taken.inj taken
    · exact absurd same left
    · subst taken
      exact absurd same.symm kept
    · exact ih first second

/-- What is found under a key is the number of the current call there. -/
theorem find?_booksOf {n : Nat} : Table.find? (booksOf es).inflight key = some n ↔
    ∃ call, Current es call ∧ call.key = key ∧ call.serial = n := by
  induction es using List.reverseRecOn with
  | nil => simp [booksOf, Current]
  | append_singleton es e ih =>
    simp only [booksOf_append_one, current_append_one]
    have erased (k : CallKey) (clears : ∀ key, e.Clears key ↔ k = key)
        (untaken : ∀ call, e ≠ .taken call) :
        Table.find? (Table.erase (booksOf es).inflight k) key = some n ↔
          ∃ call, (e = .taken call ∨ Current es call ∧ ¬ e.Clears call.key) ∧ call.key = key ∧
            call.serial = n := by
      rw [Table.find?_erase]
      split
      · next same =>
        subst same
        refine iff_of_false (by simp) ?_
        rintro ⟨call, taken | ⟨-, kept⟩, rfl, -⟩
        · exact untaken call taken
        · exact kept ((clears _).2 rfl)
      · next other =>
        rw [ih]
        refine exists_congr fun call => ?_
        simp only [untaken, false_or, clears]
        constructor
        · rintro ⟨current, rfl, rfl⟩
          exact ⟨⟨current, other⟩, rfl, rfl⟩
        · rintro ⟨⟨current, -⟩, rfl, rfl⟩
          exact ⟨current, rfl, rfl⟩
    cases e with
    | taken c =>
      simp only [Books.note, Table.find?_put, CallEvent.taken.injEq, Clears]
      split
      · next same =>
        subst same
        simp only [Option.some.injEq]
        constructor
        · rintro rfl
          exact ⟨c, .inl rfl, rfl, rfl⟩
        · rintro ⟨call, rfl | ⟨-, other⟩, same, serial⟩
          · exact serial
          · exact absurd same.symm other
      · next other =>
        rw [ih]
        constructor
        · rintro ⟨call, current, rfl, rfl⟩
          exact ⟨call, .inr ⟨current, other⟩, rfl, rfl⟩
        · rintro ⟨call, rfl | ⟨current, -⟩, rfl, rfl⟩
          · exact absurd rfl other
          · exact ⟨call, current, rfl, rfl⟩
    | turnedAway k => exact erased k (fun _ => Iff.rfl) (by simp)
    | heard c => exact erased c.key (fun _ => Iff.rfl) (by simp)
    | told | cancel | deleted | stopped => simpa [Books.note, Clears] using ih

/-- A call was tripped by a cancel under its key when it was the current one there. -/
theorem mem_tripped_booksOf {n : Nat} : n ∈ (booksOf es).tripped ↔
    ∃ before call, before ++ [.cancel call.key] <+: es ∧ Current before call ∧ call.serial = n := by
  induction es using List.reverseRecOn with
  | nil => simp [booksOf]
  | append_singleton es e ih =>
    simp only [booksOf_append_one, List.prefix_concat_iff, List.append_singleton_inj]
    have silent (same : (booksOf es).tripped = ((booksOf es).note e).tripped)
        (other : ∀ key, e ≠ .cancel key) : n ∈ ((booksOf es).note e).tripped ↔
          ∃ before call, ((before = es ∧ .cancel call.key = e) ∨
            before ++ [.cancel call.key] <+: es) ∧ Current before call ∧ call.serial = n := by
      simp only [← same, ih, (other _).symm, and_false, false_or]
    cases e with
    | cancel key =>
      simp only [Books.note, List.mem_append, Option.mem_toList, find?_booksOf, ih,
        CallEvent.cancel.injEq]
      constructor
      · rintro (⟨call, current, rfl, rfl⟩ | ⟨before, call, within, current, rfl⟩)
        · exact ⟨es, call, .inl ⟨rfl, rfl⟩, current, rfl⟩
        · exact ⟨before, call, .inr within, current, rfl⟩
      · rintro ⟨before, call, ⟨rfl, rfl⟩ | within, current, rfl⟩
        · exact .inl ⟨call, current, rfl, rfl⟩
        · exact .inr ⟨before, call, within, current, rfl⟩
    | taken | turnedAway | told | heard | deleted | stopped => exact silent rfl (by simp)

/-! ## Lawful logs -/

/-- What may happen after these events: calls are numbered in the order in which they are taken on,
none of them on a component that was deleted; the end of each is told once at most; and ends are
heard in the order in which they are told. -/
def MayFollow (es : List CallEvent) : CallEvent → Prop
  | .taken call => (∀ other, .taken other ∈ es → other.serial < call.serial) ∧
      ∀ id, call.host = some id → .deleted id ∉ es
  | .told call => .taken call ∈ es ∧ .told call ∉ es
  | .heard call => ∃ rest, toldIn es = heardIn es ++ call :: rest
  | _ => True

def Lawful (es : List CallEvent) : Prop := Always MayFollow es

theorem lawful_nil : Lawful [] := always_nil MayFollow

theorem lawful_append_one : Lawful (es ++ [e]) ↔ Lawful es ∧ MayFollow es e := always_append_one

theorem Lawful.sorted (lawful : Lawful es) : (takenIn es).Pairwise (·.serial < ·.serial) := by
  induction es using List.reverseRecOn with
  | nil => exact List.Pairwise.nil
  | append_singleton es e ih =>
    obtain ⟨before, last⟩ := lawful_append_one.1 lawful
    rw [takenIn_append_one, List.pairwise_append]
    cases e with
    | taken call => exact ⟨ih before, by simp [taken?], by simpa [taken?] using last.1⟩
    | _ => exact ⟨ih before, by simp [taken?], by simp [taken?]⟩

theorem Lawful.serials_nodup (lawful : Lawful es) : ((takenIn es).map Call.serial).Nodup :=
  List.pairwise_map.2 (lawful.sorted.imp Nat.ne_of_lt)

theorem Lawful.taken_nodup (lawful : Lawful es) : (takenIn es).Nodup :=
  .of_map Call.serial lawful.serials_nodup

/-- A call is known by its number. -/
theorem Lawful.serial_inj (lawful : Lawful es) (first : .taken call ∈ es) (second : .taken c ∈ es)
    (same : call.serial = c.serial) : call = c :=
  List.inj_on_of_nodup_map lawful.serials_nodup (mem_takenIn.2 first) (mem_takenIn.2 second) same

theorem Lawful.told_nodup (lawful : Lawful es) : (toldIn es).Nodup := by
  induction es using List.reverseRecOn with
  | nil => exact List.nodup_nil
  | append_singleton es e ih =>
    obtain ⟨before, last⟩ := lawful_append_one.1 lawful
    rw [toldIn_append_one, List.nodup_append]
    cases e with
    | told call =>
      refine ⟨ih before, by simp [told?], ?_⟩
      rintro other old _ new rfl
      exact last.2 (mem_toldIn.1 (Option.mem_some.1 (Option.mem_toList.1 new) ▸ old))
    | _ => exact ⟨ih before, by simp [told?], by simp [told?]⟩

theorem Lawful.taken_of_told (lawful : Lawful es) (told : .told call ∈ es) : .taken call ∈ es := by
  induction es using List.reverseRecOn with
  | nil => cases told
  | append_singleton es e ih =>
    obtain ⟨before, last⟩ := lawful_append_one.1 lawful
    rcases List.mem_append.1 told with old | new
    · exact List.mem_append_left _ (ih before old)
    · cases List.mem_singleton.1 new
      exact List.mem_append_left _ last.1

theorem Lawful.heard_prefix (lawful : Lawful es) : heardIn es <+: toldIn es := by
  induction es using List.reverseRecOn with
  | nil => exact List.prefix_refl _
  | append_singleton es e ih =>
    obtain ⟨before, last⟩ := lawful_append_one.1 lawful
    have longer := (ih before).trans (List.prefix_append (toldIn es) e.told?.toList)
    rw [heardIn_append_one, toldIn_append_one]
    cases e with
    | heard call =>
      obtain ⟨rest, split⟩ := last
      exact ⟨rest, by simp [heard?, told?, split]⟩
    | _ => simpa [heard?] using longer

theorem Lawful.told_of_heard (lawful : Lawful es) (heard : .heard call ∈ es) : .told call ∈ es :=
  mem_toldIn.1 (lawful.heard_prefix.subset (mem_heardIn.2 heard))

/-! ## Outstanding calls -/

/-- The call was taken on, and the machine has not heard of its end. -/
def Outstanding (es : List CallEvent) (call : Call) : Prop := .taken call ∈ es ∧ .heard call ∉ es

/-- No call is started under a key under which an earlier one is outstanding. -/
def OneAtATime (es : List CallEvent) : Prop := Always (fun before e =>
  ∀ key ∈ e.starts?, ∀ call ∈ takenIn before, .heard call ∈ before ∨ call.key ≠ key) es

instance : (es : List CallEvent) → Decidable (OneAtATime es) := fun es =>
  inferInstanceAs (Decidable (Always _ es))

theorem Lawful.current_iff_outstanding (lawful : Lawful es) (apart : OneAtATime es) :
    Current es call ↔ Outstanding es call := by
  induction es using List.reverseRecOn generalizing call with
  | nil => simp [Current, Outstanding]
  | append_singleton es e ih =>
    obtain ⟨before, last⟩ := lawful_append_one.1 lawful
    obtain ⟨early, free⟩ := always_append_one.1 apart
    have ih {call : Call} : Current es call ↔ Outstanding es call := ih before early
    have other {key : CallKey} (starts : e.starts? = some key) (outstanding : Outstanding es call) :
        call.key ≠ key :=
      (free key starts call (mem_takenIn.2 outstanding.1)).resolve_left outstanding.2
    simp only [current_append_one, ih]
    unfold Outstanding at ih other ⊢
    cases e with
    | taken c =>
      simp only [CallEvent.taken.injEq, Clears, List.mem_append, List.mem_singleton, reduceCtorEq,
        or_false]
      constructor
      · rintro (rfl | ⟨outstanding, -⟩)
        · refine ⟨.inr rfl, fun heard => ?_⟩
          exact Nat.lt_irrefl _ (last.1 _ (before.taken_of_told (before.told_of_heard heard)))
        · exact ⟨.inl outstanding.1, outstanding.2⟩
      · rintro ⟨old | rfl, unheard⟩
        · exact .inr ⟨⟨old, unheard⟩, fun same => other rfl ⟨old, unheard⟩ same.symm⟩
        · exact .inl rfl
    | turnedAway k =>
      simp only [reduceCtorEq, false_or, Clears, List.mem_append, List.mem_singleton, or_false]
      exact ⟨And.left, fun outstanding => ⟨outstanding, fun same => other rfl outstanding same.symm⟩⟩
    | heard c =>
      simp only [reduceCtorEq, false_or, Clears, List.mem_append, List.mem_singleton, or_false,
        CallEvent.heard.injEq, not_or]
      obtain ⟨rest, split⟩ := last
      have told : c ∈ toldIn es := by simp [split]
      have unheard : c ∉ heardIn es := by
        have once := split ▸ before.told_nodup
        exact fun heard => (List.nodup_append.1 once).2.2 c heard c (by simp) rfl
      have ended : Current es c :=
        ih.2 ⟨before.taken_of_told (mem_toldIn.1 told), fun heard => unheard (mem_heardIn.2 heard)⟩
      constructor
      · rintro ⟨⟨taken, unheard⟩, kept⟩
        exact ⟨taken, unheard, by rintro rfl; exact kept rfl⟩
      · rintro ⟨taken, unheard, different⟩
        refine ⟨⟨taken, unheard⟩, fun same => different ?_⟩
        exact (ended.unique (ih.2 ⟨taken, unheard⟩) same).symm
    | told | cancel | deleted | stopped => simp [Clears]

/-- An instance is deleted behind the calls that were taken on for it. -/
theorem Lawful.deleted_behind (lawful : Lawful es) {id : Nat} (taken : .taken call ∈ es)
    (host : call.host = some id) (deleted : .deleted id ∈ es) :
    ∃ before, before ++ [.deleted id] <+: es ∧ .taken call ∈ before := by
  induction es using List.reverseRecOn with
  | nil => cases taken
  | append_singleton es e ih =>
    obtain ⟨before, last⟩ := lawful_append_one.1 lawful
    rcases List.mem_append.1 taken with old | new
    · rcases List.mem_append.1 deleted with gone | goes
      · obtain ⟨front, within, member⟩ := ih before old gone
        exact ⟨front, List.prefix_concat_iff.2 (.inr within), member⟩
      · cases List.mem_singleton.1 goes
        exact ⟨es, List.prefix_refl _, old⟩
    · cases List.mem_singleton.1 new
      exact absurd (by simpa using deleted) (last.2 id host)

end Patchbay.Machine
