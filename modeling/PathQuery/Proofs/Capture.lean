import PathQuery.Proofs.Failure
import PathQuery.Proofs.KeyAccess
import PathQuery.Proofs.LeftPending

/-!
# Who uses up pending accesses

Each event that captures a node begins with that capture, and what it does after it leaves the
pending accesses alone (`Build.CapturesFirst`). So it is settled by the placeholder whether they are
used up, and not by what becomes of the operation. A condition of a join that cannot stand there is
refused before its capture, and then nothing is used up.

Besides captures there are two events that use up what is pending: it can be asked for, and a
sub-query that ends with an access left is refused and loses it (`Stage.empties`). An event that does
neither and makes no access leaves the pending accesses as they are (`Stage.pending_of_spared`).

Main statements: `capture_eq_ok_iff`, when a capture succeeds, and `captures_operation`, that events
begin with their captures.
-/

namespace PathQuery

/-! ## Operations -/

namespace Build

variable {α β γ : Type}

/-- Whether an operation leaves the pending accesses alone, also when it fails. -/
def Spares (x : Build α) : Prop := ∀ q : Query, (x q).2.pending = q.pending

theorem spares_pure (a : α) : Spares (pure a : Build α) := fun _ => rfl

theorem spares_ask (f : Query → Except Error α) : Spares (ask f) := fun _ => rfl

theorem Spares.bind {x : Build α} {f : α → Build β} (hx : Spares x) (hf : ∀ a, Spares (f a)) :
    Spares (x >>= f) :=
  relates_bind (R := fun q q' => q'.pending = q.pending) (fun h h' => h'.trans h) hx hf

theorem bind_assoc (x : Build α) (f : α → Build β) (k : β → Build γ) (q : Query) :
    ((x >>= f) >>= k) q = (x >>= fun a => f a >>= k) q := by
  cases hr : x q with
  | mk r q' =>
    cases r with
    | ok a =>
      rw [bind_of_ok hr]
      cases hs : f a q' with
      | mk r' q'' =>
        have hxf : (x >>= f) q = (r', q'') := (bind_of_ok hr).trans hs
        cases r' with
        | ok b => rw [bind_of_ok hxf, bind_of_ok hs]
        | error e => rw [bind_of_error hxf, bind_of_error hs]
    | error e =>
      have hxf : (x >>= f) q = (.error e, q') := bind_of_error hr
      rw [bind_of_error hxf, bind_of_error hr]

/-- Whether all that an operation does with the pending accesses of a query is to capture a node
first. -/
def CapturesFirst (x : Build α) (q : Query) (operation : String) (p : Placeholder) : Prop :=
  ∃ k : Nat → Build α, (∀ i, Spares (k i)) ∧ x q = (Query.capture operation p >>= k) q

namespace CapturesFirst

variable {x : Build α} {q : Query} {operation : String} {p : Placeholder}

theorem intro {k : Nat → Build α} (hk : ∀ i, Spares (k i)) :
    CapturesFirst (Query.capture operation p >>= k) q operation p := ⟨k, hk, rfl⟩

theorem bind {f : α → Build β} (h : x.CapturesFirst q operation p) (hf : ∀ a, Spares (f a)) :
    CapturesFirst (x >>= f) q operation p := by
  obtain ⟨k, hk, hx⟩ := h
  refine ⟨fun i => k i >>= f, fun i => (hk i).bind hf, ?_⟩
  rw [← bind_assoc]
  show Build.bind x f q = Build.bind (Query.capture operation p >>= k) f q
  rw [Build.bind, Build.bind, hx]

/-- What an operation uses up by a capture is settled by the placeholder. -/
theorem pending_eq (h : x.CapturesFirst q operation p) : (x q).2.pending = (q.taking p).pending := by
  obtain ⟨k, hk, hx⟩ := h
  rw [hx, ← Query.capture_snd operation p q]
  cases hr : Query.capture operation p q with
  | mk r q' =>
    cases r with
    | ok i => rw [bind_of_ok hr, hk i q']
    | error e => rw [bind_of_error hr]

end CapturesFirst

end Build

open Build

theorem Pending.single_eq_ok_iff {pending : Pending} {operation : String} {i : Nat} :
    pending.single operation = .ok i ↔ pending.nodes = [i] := by
  unfold single
  split
  · next n hn => simp [hn]
  · next hnodes =>
    constructor
    · intro h
      cases h
    · intro h
      exact absurd h (hnodes i)

namespace Query

theorem spares_addTest (place : Place) (guard : Guard) (t : Test) :
    Spares (addTest place guard t) := by
  intro q
  cases place with
  | filter =>
    obtain ⟨clauses, groups, heq⟩ := exists_addFilter_eq q (.test guard t)
    show (q.addFilter (.test guard t)).pending = q.pending
    rw [heq]
  | join node => rfl

theorem pending_leaveGroup (q : Query) (junction : Junction) (succeeded : Bool) :
    (q.leaveGroup junction succeeded).pending = q.pending := by
  obtain ⟨clauses, groups, heq⟩ := exists_leaveGroup_eq q junction succeeded
  rw [heq]

theorem spares_joinNode (node : Nat) (type : Join) : Spares (joinNode node type) := by
  intro q
  rcases joinNode_cases node type q with ⟨e, he⟩ | hset
  · rw [he]
  · rw [hset]

theorem spares_hasRows (scope : Nat) (negated : Bool) : Spares (hasRows scope negated) :=
  (spares_ask _).bind fun _ => spares_addTest .filter .always _

section

variable {q : Query} {join property : Placeholder}

/-- A condition of a join that cannot stand there is refused before anything else. -/
theorem onJoin_of_error {e : Error} (h : (q.checkPlaceholder join).bind q.checkJoined = .error e) :
    onJoin join property q = (.error e, q) := by
  rw [onJoin]
  cases hnode : q.checkPlaceholder join with
  | error e' =>
    rw [hnode] at h
    cases h
    have hask : ask (·.checkPlaceholder join) q = (.error e, q) := by rw [ask, hnode]
    rw [bind_of_error hask]
  | ok node =>
    rw [hnode] at h
    have hask : ask (·.checkPlaceholder join) q = (.ok node, q) := by rw [ask, hnode]
    have hjoined : ask (·.checkJoined node) q = (.error e, q) := congrArg (·, q) h
    rw [bind_of_ok hask, bind_of_error hjoined]

/-- Otherwise it begins with the capture of its property. -/
theorem onJoin_of_ok (h : (q.checkPlaceholder join).bind q.checkJoined = .ok ()) :
    onJoin join property q = (do
      let left ← capture "with" property
      .ask (·.checkVisible left (some join.node))
      return (⟨.join join.node, .node left⟩ : Subject) : Build Subject) q := by
  rw [onJoin]
  cases hnode : q.checkPlaceholder join with
  | error e =>
    rw [hnode] at h
    cases h
  | ok node =>
    rw [hnode] at h
    obtain rfl := eq_of_checkPlaceholder hnode
    have hask : ask (·.checkPlaceholder join) q = (.ok join.node, q) := by rw [ask, hnode]
    have hjoined : ask (·.checkJoined join.node) q = (.ok (), q) := congrArg (·, q) h
    rw [bind_of_ok hask, bind_of_ok hjoined]

end

theorem captures_compareProperty (s : Subject) (guard : Guard) (op : Comparison) (p : Placeholder)
    (q : Query) : CapturesFirst (compareProperty s guard op p) q "comparison" p := by
  apply CapturesFirst.bind
  · apply CapturesFirst.intro
    intro right
    cases s.place with
    | filter => exact spares_pure right
    | join node => exact (spares_ask _).bind fun _ => spares_pure right
  · intro right
    exact spares_addTest s.place guard _

section

variable {q q' : Query} {p : Placeholder} {operation : String} {i : Nat}

theorem consume_eq_ok_iff (hp : p.kind ≠ .root) : consume operation p i q = (.ok (), q') ↔
    q.pending.nodes = [i] ∧ q' = { q with pending := .none } := by
  rw [consume, if_neg hp, bind_eq_ok_iff]
  constructor
  · intro h
    obtain ⟨n, q₁, htake, hrest⟩ := h
    obtain ⟨hsingle, rfl⟩ := Prod.mk.inj htake
    by_cases hn : n = i
    · rw [if_pos hn] at hrest
      cases hrest
      exact ⟨hn ▸ Pending.single_eq_ok_iff.1 hsingle, rfl⟩
    · rw [if_neg hn] at hrest
      cases hrest
  · intro h
    obtain ⟨hnodes, rfl⟩ := h
    refine ⟨i, _, Prod.ext (Pending.single_eq_ok_iff.2 hnodes) rfl, ?_⟩
    rw [if_pos rfl]
    rfl

/-- A capture succeeds exactly if the access to the node is the only one that is pending, and the
current scope sees the node. -/
theorem capture_eq_ok_iff (hk : q.graph.kind? p.node = some p.kind) (hp : p.kind ≠ .root) :
    (capture operation p q).1 = .ok i ↔
      i = p.node ∧ q.pending.nodes = [p.node] ∧ q.Sees p.node := by
  have hcheck := checkPlaceholder_eq_ok_iff.2 hk
  constructor
  · intro hok
    have hcapture : capture operation p q = (.ok i, (capture operation p q).2) := Prod.ext hok rfl
    obtain ⟨node, q₁, hnode, hrest⟩ := bind_eq_ok_iff.1 hcapture
    obtain ⟨hnode, rfl⟩ := ask_eq_ok_iff.1 hnode
    obtain rfl := eq_of_checkPlaceholder hnode
    obtain ⟨u, q₂, hconsume, hrest⟩ := bind_eq_ok_iff.1 hrest
    obtain ⟨v, q₃, hvisible, hresult⟩ := bind_eq_ok_iff.1 hrest
    obtain ⟨hvisible, rfl⟩ := ask_eq_ok_iff.1 hvisible
    obtain ⟨hnodes, rfl⟩ := (consume_eq_ok_iff hp).1 hconsume
    obtain rfl : p.node = i := Except.ok.inj (congrArg Prod.fst hresult)
    exact ⟨rfl, hnodes, checkVisible_eq_ok_iff.1 hvisible⟩
  · intro h
    obtain ⟨rfl, hnodes, hsees⟩ := h
    have hvisible : checkVisible { q with pending := .none } p.node none = .ok () :=
      checkVisible_eq_ok_iff.2 hsees
    have hcapture : capture operation p q = (.ok p.node, { q with pending := .none }) :=
      bind_eq_ok_iff.2 ⟨_, q, ask_eq_ok_iff.2 ⟨hcheck, rfl⟩,
        bind_eq_ok_iff.2 ⟨(), _, (consume_eq_ok_iff hp).2 ⟨hnodes, rfl⟩,
          bind_eq_ok_iff.2 ⟨(), _, ask_eq_ok_iff.2 ⟨hvisible, rfl⟩, rfl⟩⟩⟩
    rw [hcapture]

end

end Query

/-! ## What events capture -/

section

variable {q : Query} {operation : String} {p : Placeholder}

/-- The operation and the placeholder of the capture that a restriction starts with. A condition of
a join is refused before it if it cannot stand there. -/
def Opening.captured? (q : Query) : Opening → Option (String × Placeholder)
  | .filter p => some ("where", p)
  | .onJoin join property =>
    match (q.checkPlaceholder join).bind q.checkJoined with
    | .ok () => some ("with", property)
    | .error _ => none
  | .expression _ => none

theorem Opening.captures_subject {o : Opening} (h : o.captured? q = some (operation, p)) :
    o.subject.CapturesFirst q operation p := by
  cases o with
  | filter p =>
    cases h
    exact .intro fun node => spares_pure _
  | onJoin join property =>
    unfold captured? at h
    dsimp only at h
    split at h
    · next hchecks =>
      cases h
      have hrest : ∀ left, Spares (do
          .ask (·.checkVisible left (some join.node))
          return (⟨.join join.node, .node left⟩ : Subject)) :=
        fun left => (spares_ask _).bind fun _ => spares_pure _
      exact ⟨_, hrest, Query.onJoin_of_ok hchecks⟩
    · cases h
  | expression e => cases h

theorem Opening.pending_subject {o : Opening} (h : o.captured? q = none) :
    (o.subject q).2.pending = q.pending := by
  cases o with
  | filter p => cases h
  | onJoin join property =>
    unfold captured? at h
    dsimp only at h
    split at h
    · cases h
    · next e hchecks =>
      show (Query.onJoin join property q).2.pending = q.pending
      rw [Query.onJoin_of_error hchecks]
  | expression e => rfl

theorem Completion.spares_run (s : Subject) (guard : Guard) (c : Completion) :
    Spares (c.run s guard) := by
  cases c with
  | inSub scope negated => exact (spares_ask _).bind fun _ => Query.spares_addTest s.place guard _
  | nothing => exact spares_pure ()
  | compareValue | compareParameter | compareExpression | between | oneOf | isNull =>
    exact Query.spares_addTest s.place guard _

namespace Call

/-- The capture that a call starts with. -/
def captured? (q : Query) : Call → Option (String × Placeholder)
  | .operand p => some ("expression", p)
  | .join p _ => some ("join", p)
  | .restrict opening _ _ => opening.captured? q
  | .select p | .selectAggregate _ _ p => some ("select", p)
  | .groupBy p => some ("group by", p)
  | .orderBy p _ => some ("order by", p)
  | _ => none

theorem captures_run {c : Call} (h : c.captured? q = some (operation, p)) :
    c.run.CapturesFirst q operation p := by
  cases c with
  | operand p =>
    cases h
    exact .intro fun _ => spares_pure ()
  | join p type =>
    cases h
    apply CapturesFirst.bind
    · exact .intro fun node => (Query.spares_joinNode node type).bind fun _ => spares_pure p
    · exact fun _ => spares_pure ()
  | restrict opening guard completion =>
    exact (Opening.captures_subject h).bind fun s => completion.spares_run s guard
  | select | selectAggregate | groupBy | orderBy =>
    cases h
    exact .intro fun _ _ => rfl
  | _ => cases h

/-- A call that captures nothing leaves the pending accesses as they are, unless it asks for them or
makes an access. -/
theorem pending_run {c : Call} (h : c.captured? q = none) (hdrain : c ≠ .drain)
    (haccess : ∀ owner property, c ≠ .access owner property) :
    (c.run q).2.pending = q.pending := by
  cases c with
  | addFrom type =>
    rw [run, snd_ignore]
    exact Query.pending_addFrom type q
  | access owner property => exact absurd rfl (haccess owner property)
  | drain => exact absurd rfl hdrain
  | restrict opening guard completion =>
    have hsubject := Opening.pending_subject h
    rw [run]
    cases hr : opening.subject q with
    | mk r q' =>
      rw [hr] at hsubject
      cases r with
      | ok s =>
        rw [bind_of_ok hr]
        exact (completion.spares_run s guard q').trans hsubject
      | error e =>
        rw [bind_of_error hr]
        exact hsubject
  | hasRows scope negated => exact Query.spares_hasRows scope negated q
  | selectExpression | distinct | groupByExpression | orderByExpression | setParameter => rfl
  | operand | join | select | selectAggregate | groupBy | orderBy => cases h

end Call

end

namespace Stage

variable {s : Stage} {e : Event} {operation : String} {p : Placeholder} {a : Access}

/-- The capture that an event starts with. -/
def captured? (s : Stage) : Event → Option (String × Placeholder)
  | .call c => c.captured? s.query
  | .enterComparison opening _ _ => opening.captured? s.query
  | .leaveComparison right =>
    match s.frames, right with
    | .comparison _ _ _ :: _, some p => some ("comparison", p)
    | _, _ => none
  | _ => none

/-- The operation that an event performs on the query, apart from the ends of bodies. -/
def operation? (s : Stage) : Event → Option (Build Unit)
  | .call c => some c.run
  | .enterComparison opening _ _ => some do
    let _ ← opening.subject
    return ()
  | .leaveComparison right =>
    match s.frames, right with
    | .comparison subject guard op :: _, some p => some (Query.compareProperty subject guard op p)
    | _, _ => none
  | _ => none

theorem query_step_operation {x : Build Unit} (h : s.operation? e = some x) :
    (s.step e).query = (x s.query).2 := by
  cases e with
  | call c =>
    cases h
    rfl
  | enterComparison opening guard op =>
    cases h
    rw [snd_ignore, step]
    cases opening.subject s.query with
    | mk r q => cases r <;> rfl
  | leaveComparison right =>
    unfold operation? at h
    dsimp only at h
    split at h
    · next hframes =>
      cases h
      simp only [step, hframes]
    · cases h
  | enterGroup | leaveGroup | enterSub | leaveSub => cases h

/-- An event that captures a node begins with that. -/
theorem captures_operation (h : s.captured? e = some (operation, p)) :
    ∃ x, s.operation? e = some x ∧ x.CapturesFirst s.query operation p := by
  cases e with
  | call c => exact ⟨c.run, rfl, Call.captures_run h⟩
  | enterComparison opening guard op =>
    exact ⟨_, rfl, (Opening.captures_subject h).bind fun _ => spares_pure ()⟩
  | leaveComparison right =>
    unfold captured? at h
    dsimp only at h
    split at h
    · next subject guard op rest p hframes =>
      cases h
      refine ⟨Query.compareProperty subject guard op p, ?_,
        Query.captures_compareProperty subject guard op p s.query⟩
      simp only [operation?, hframes]
    · cases h
  | enterGroup | leaveGroup | enterSub | leaveSub => cases h

theorem pending_step_captured (h : s.captured? e = some (operation, p)) :
    (s.step e).query.pending = (s.query.taking p).pending := by
  obtain ⟨x, hx, hcaptures⟩ := captures_operation h
  rw [query_step_operation hx, hcaptures.pending_eq]

/-! ## What events do to the pending accesses -/

/-- Whether an event uses up all that is pending: it asks for it, it captures a node of the query
that is no root, or it ends a sub-query that leaves an access dangling. -/
def empties (s : Stage) : Event → Bool
  | .call .drain => true
  | .leaveSub succeeded =>
    match s.frames with
    | .sub _ :: _ => succeeded && !s.query.pending.isEmpty
    | _ => false
  | e => (s.captured? e).any fun x =>
    s.query.graph.kind? x.2.node == some x.2.kind && x.2.kind != .root

theorem empties_of_captured (h : s.captured? e = some (operation, p)) :
    s.empties e = (s.query.graph.kind? p.node == some p.kind && p.kind != .root) := by
  unfold empties
  split
  · cases h
  · cases h
  · rw [h, Option.any_some]

/-- What is used up by a capture is told by `empties`. -/
theorem taking_eq (h : s.captured? e = some (operation, p)) :
    s.query.taking p = if s.empties e then { s.query with pending := .none } else s.query := by
  rw [empties_of_captured h, Query.taking]
  by_cases hroot : p.kind = .root
  · simp [hroot]
  · by_cases hkind : s.query.graph.kind? p.node = some p.kind <;> simp [hroot, hkind]

theorem pending_of_empties (h : s.empties e = true) : (s.step e).query.pending = .none := by
  cases hc : s.captured? e with
  | some x =>
    rw [pending_step_captured hc, taking_eq hc, if_pos h]
  | none =>
    unfold empties at h
    split at h
    · rfl
    · next succeeded =>
      split at h
      · next scope rest hframes =>
        have hsucceeded : succeeded = true := (Bool.and_eq_true_iff.1 h).1
        have hnodes := pending_closeSub s scope rest succeeded
        rw [if_pos hsucceeded] at hnodes
        simp only [step, hframes]
        exact congrArg Pending.mk hnodes
      · cases h
    · rw [hc] at h
      cases h

/-- An event that neither uses up what is pending nor makes an access leaves it as it is. -/
theorem pending_of_spared (h : s.empties e = false) (ha : s.access? e = none) :
    (s.step e).query.pending = s.query.pending := by
  cases hc : s.captured? e with
  | some x =>
    rw [pending_step_captured hc, taking_eq hc, h]
    rfl
  | none =>
    cases e with
    | call c =>
      by_cases haccess : ∃ owner property, c = .access owner property
      · obtain ⟨owner, property, rfl⟩ := haccess
        rw [query_step_access]
        unfold access? at ha
        dsimp only at ha
        split at ha
        · cases ha
        · next he => rw [he, Query.access_eq_error he]
      · push Not at haccess
        refine Call.pending_run hc ?_ haccess
        intro hdrain
        rw [hdrain] at h
        cases h
    | enterGroup | enterSub => rfl
    | leaveGroup succeeded =>
      unfold step
      dsimp only
      split
      · exact Query.pending_leaveGroup s.query _ succeeded
      · rfl
    | leaveSub succeeded =>
      unfold step
      dsimp only
      split
      · next scope rest hframes =>
        have hnodes := pending_closeSub s scope rest succeeded
        have hnil : succeeded = true → s.query.pending.nodes = [] := by
          intro hsucceeded
          simpa [empties, hframes, hsucceeded, Pending.isEmpty] using h
        apply congrArg Pending.mk
        by_cases hsucceeded : succeeded = true
        · rw [hnodes, if_pos hsucceeded, hnil hsucceeded]
        · rw [hnodes, if_neg hsucceeded]
      · rfl
    | enterComparison opening guard op =>
      have hx : s.operation? (.enterComparison opening guard op) =
          some (opening.subject >>= fun _ => pure ()) := rfl
      rw [query_step_operation hx, snd_bind fun _ _ => rfl]
      exact Opening.pending_subject hc
    | leaveComparison right =>
      unfold captured? at hc
      dsimp only at hc
      unfold step
      dsimp only
      split
      · next hframes => simp [hframes] at hc
      · rfl
      · rfl

theorem pending_of_access (h : s.access? e = some a) :
    (s.step e).query.pending = s.query.pending.record a.owner a.reached := by
  unfold access? at h
  split at h
  · next owner property =>
    split at h
    · next p q hok =>
      cases h
      obtain ⟨-, -, q₁, hchild, -, rfl⟩ := Query.access_eq_ok_iff.1 hok
      have hsame := Query.pending_child owner.node property s.query
      rw [hchild] at hsame
      rw [query_step_access, hok]
      dsimp only
      rw [hsame]
    · cases h
  · cases h

end Stage

end PathQuery
