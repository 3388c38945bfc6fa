import Mathlib.Data.List.Induction
import PathQuery.Proofs.Closed
import PathQuery.Proofs.Quiet

/-!
# Accesses that are left pending

An access is made where its node can be seen, and the node stays in sight until a scope is closed
that made it. When the body of a sub-query has succeeded, what is still pending is used up and
refused, so nothing of it is left. When the body has failed, its error is handed on at once: what it
had accessed stays pending in the query around it, which does not see the node and cannot consume
the access.

**The two ways on.** An event leaves a node pending only if it was pending before, or is accessed by
the event (`Sound.pending_step`). An event takes a node out of sight only if it closes the scope
that made it (`Sound.sees_step`). Both together say where every pending node comes from.

Main statement: `run_tracesPending`.
-/

namespace PathQuery

/-! ## Accesses -/

open Build

namespace Query

variable {owner : Placeholder} {property : String} {q : Query} {i : Nat}

theorem mem_record {pending : Pending} {parent c : Nat}
    (hi : i ∈ (pending.record parent c).nodes) : i ∈ pending.nodes ∨ i = c := by
  unfold Pending.record at hi
  split at hi
  · rcases List.mem_append.1 hi with hi | hi
    · exact Or.inl ((List.dropLast_sublist _).subset hi)
    · exact Or.inr (List.mem_singleton.1 hi)
  · rcases List.mem_append.1 hi with hi | hi
    · exact Or.inl hi
    · exact Or.inr (List.mem_singleton.1 hi)

theorem pending_addFrom (type : String) (q : Query) :
    (addFrom type q).2.pending = q.pending := by
  unfold addFrom
  split <;> rfl

theorem pending_join (p : Placeholder) (type : Join) (q : Query) :
    (Query.join p type q).2.pending.nodes ⊆ q.pending.nodes := by
  rcases join_cases p type q with ⟨-, hkeeps⟩ | ⟨-, -, -, hpending⟩
  · exact hkeeps.pending
  · exact hpending

theorem pending_child (owner : Nat) (property : String) (q : Query) :
    (child owner property q).2.pending = q.pending := by
  unfold child
  split
  · rfl
  · split <;> rfl

/-- What is pending after an access was pending before, or it is the node that was accessed, and
that one is in sight. -/
theorem pending_access (hi : i ∈ (access owner property q).2.pending.nodes) :
    (access owner property q).2.Sees i ∨ i ∈ q.pending.nodes := by
  cases hr : (access owner property q).1 with
  | error e =>
    have hsame : (access owner property q).2 = q := access_eq_error (Prod.ext hr rfl)
    exact Or.inr (hsame ▸ hi)
  | ok p =>
    have hok : access owner property q = (.ok p, (access owner property q).2) := Prod.ext hr rfl
    obtain ⟨-, hseen⟩ := hasAccessed_of_access hok
    obtain ⟨-, -, q₁, hchild, -, heq⟩ := access_eq_ok_iff.1 hok
    have hsame := pending_child owner.node property q
    rw [hchild] at hsame
    rw [heq] at hi
    rcases mem_record hi with hold | rfl
    · exact Or.inr (hsame ▸ hold)
    · exact Or.inl hseen.seen

end Query

/-! ## Events -/

namespace Stage

variable {h : Nat → Handles} {s : Stage} {e : Event} {i : Nat}

/-- Whether the innermost body is that of a sub-query which leaves a node pending that it has
made. -/
structure LeavesBehind (s : Stage) (i : Nat) : Prop where
  body : s.frames.head? = some (.sub s.query.current)
  made : s.query.graph.scope? i = some s.query.current
  pending : i ∈ s.query.pending.nodes

/-- The end of a sub-query leaves nothing pending, or, if its body failed, all that was. -/
theorem pending_closeSub (s : Stage) (scope : Nat) (rest : List Frame) (succeeded : Bool) :
    (s.closeSub scope rest succeeded).query.pending.nodes =
      if succeeded then [] else s.query.pending.nodes := by
  unfold closeSub
  cases succeeded with
  | false => rfl
  | true =>
    dsimp only
    rw [if_pos rfl, if_pos rfl]
    cases hp : s.query.pending.isEmpty with
    | false =>
      have hleave : (s.query.leaveSub scope).pending.isEmpty = false := hp
      simp only [Query.finishSub, hleave, Bool.not_false, if_true]
      rfl
    | true =>
      have hleave : (s.query.leaveSub scope).pending.isEmpty = true := hp
      have hnil : s.query.pending.nodes = [] := List.isEmpty_iff.1 hp
      simp only [Query.finishSub, hleave, Bool.not_true, Bool.false_eq_true, if_false]
      split
      · next heq => split at heq <;> cases heq; exact hnil
      · next heq => split at heq <;> cases heq; exact hnil

/-- An event leaves a node pending only if it was pending before, or is in sight. -/
theorem pending_step (hi : i ∈ (s.step e).query.pending.nodes) :
    (s.step e).query.Sees i ∨ i ∈ s.query.pending.nodes := by
  by_cases he : e.isQuiet = true
  · exact Or.inr ((s.keeps_step he).pending hi)
  cases e with
  | call c =>
    cases c with
    | addFrom type =>
      rw [query_step_addFrom, Query.pending_addFrom] at hi
      exact Or.inr hi
    | access owner property =>
      rw [query_step_access] at hi ⊢
      exact Query.pending_access hi
    | join p type =>
      rw [query_step_join] at hi
      exact Or.inr (Query.pending_join p type s.query hi)
    | _ => exact absurd rfl he
  | _ => exact absurd rfl he

/-- An event takes a node out of sight only if it closes the scope that made it. -/
theorem Sound.sees_step (hs : s.Sound h) (he : e.Within (h s.query.current))
    (hi : s.query.Sees i) : (s.step e).query.Sees i ∨
      ∃ succeeded, e = .leaveSub succeeded ∧ s.frames.head? = some (.sub s.query.current) ∧
        s.query.graph.scope? i = some s.query.current := by
  refine hs.step_relates (R := fun q q' => q.Sees i → q'.Sees i ∨
    ∃ succeeded, e = .leaveSub succeeded ∧ s.frames.head? = some (.sub s.query.current) ∧
      s.query.graph.scope? i = some s.query.current) he (fun _ => Or.inl) ?_ ?_ ?_ ?_ ?_ hi
  · exact fun h₁ h₂ hi => (h₁ hi).elim h₂ Or.inr
  · intro q q' _ hc hi
    exact Or.inl (hi.later hc.extends (hc.current_eq ▸ Scopes.encloses_self _ _))
  · exact fun _ hi => Or.inl hi
  · intro _ hi
    have hext : s.query.Extends s.query.enterSub := ⟨.refl _, s.query.scopes.extends_enter, rfl⟩
    exact Or.inl (hi.later hext (Scopes.encloses_enter_size.2 (Or.inr (Scopes.encloses_self _ _))))
  · rintro succeeded outer p hleave hbody houter ⟨r, hr, henc⟩
    rcases Scopes.encloses_iff_outer.1 henc with rfl | ⟨p', hp', hin⟩
    · exact Or.inr ⟨succeeded, hleave, hbody, hr⟩
    · obtain rfl : outer = p' := Option.some.inj (houter.symm.trans hp')
      refine Or.inl ⟨r, hr, ?_⟩
      show (s.query.scopes.leave s.query.current).encloses r
        (s.query.scopes.leave s.query.current).current = true
      rw [Scopes.current_leave houter]
      exact (s.query.scopes.extends_leave _).encloses hin

/-- What a failed sub-query leaves behind stays pending out of sight. -/
theorem Sound.leavesBehind (hs : s.Sound h) (hi : s.LeavesBehind i) :
    i ∈ (s.step (.leaveSub false)).query.pending.nodes ∧
      ¬ (s.step (.leaveSub false)).query.Sees i := by
  obtain ⟨rest, hframes⟩ := List.head?_eq_some_iff.1 hi.body
  have hstep : s.step (.leaveSub false) = s.closeSub s.query.current rest false := by
    simp only [Stage.step, hframes]
  constructor
  · rw [hstep, pending_closeSub]
    exact hi.pending
  · rintro ⟨r, hr, henc⟩
    have hclosed := hs.isClosed_leaveSub hframes false
    have hscope : (s.step (.leaveSub false)).query.graph.scope? i = some s.query.current := by
      rw [hstep]
      exact hi.made
    obtain rfl : s.query.current = r := Option.some.inj (hscope.symm.trans hr)
    rw [hclosed.left] at henc
    cases henc

/-! ## Runs -/

/-- Where the accesses come from that are pending after a run. -/
structure TracesPending (s : Stage) (es : List Event) : Prop where
  /-- The node of a pending access is in sight, unless the body of a sub-query has failed and left
  it behind. In that case it was pending ever since. -/
  traced : ∀ i ∈ (s.run es).query.pending.nodes, (s.run es).query.Sees i ∨
    ∃ before after, es = before ++ .leaveSub false :: after ∧ (s.run before).LeavesBehind i ∧
      ∀ fs, fs <+: after → i ∈ (s.run (before ++ .leaveSub false :: fs)).query.pending.nodes
  /-- If no failed body leaves a node behind, all that is pending is in sight. -/
  inSight : (∀ before after i, es = before ++ .leaveSub false :: after →
      ¬ (s.run before).LeavesBehind i) →
    ∀ i ∈ (s.run es).query.pending.nodes, (s.run es).query.Sees i
  /-- A sub-query whose body succeeds leaves nothing pending. -/
  succeeded : (s.run es).frames.head? = some (.sub (s.run es).query.current) →
    ((s.run es).step (.leaveSub true)).query.pending.nodes = []
  /-- One whose body fails leaves behind what is pending and what it has made. -/
  failed : ∀ i, (s.run es).LeavesBehind i →
    i ∈ ((s.run es).step (.leaveSub false)).query.pending.nodes ∧
      ¬ ((s.run es).step (.leaveSub false)).query.Sees i

theorem run_concat (s : Stage) (es : List Event) (e : Event) :
    s.run (es ++ [e]) = (s.run es).step e := by
  rw [run_append, run_cons, run_nil]

theorem pending_of_step_leaveSub {b : Bool} (hb : s.frames.head? = some (.sub s.query.current)) :
    (s.step (.leaveSub b)).query.pending.nodes = if b then [] else s.query.pending.nodes := by
  obtain ⟨rest, hframes⟩ := List.head?_eq_some_iff.1 hb
  rw [← pending_closeSub s s.query.current rest b]
  simp only [Stage.step, hframes]

/-- A pending node is in sight or was left behind, by induction on the run, from its end. -/
theorem Sound.pending_run (hs : s.Sound fun _ => .any) (hstart : s.query.pending.nodes = [])
    (es : List Event) (hi : i ∈ (s.run es).query.pending.nodes) :
    (s.run es).query.Sees i ∨
      ∃ before after, es = before ++ .leaveSub false :: after ∧ (s.run before).LeavesBehind i ∧
        ∀ fs, fs <+: after →
          i ∈ (s.run (before ++ .leaveSub false :: fs)).query.pending.nodes := by
  induction es using List.reverseRecOn with
  | nil =>
    rw [run_nil, hstart] at hi
    cases hi
  | append_singleton es e ih =>
    have hlast := hi
    rw [run_concat] at hi ⊢
    rcases pending_step hi with hseen | hold
    · exact Or.inl hseen
    rcases ih hold with hseen | ⟨before, after, rfl, hleft, hkept⟩
    · rcases (hs.run es).sound.sees_step e.within_any hseen with hseen | ⟨b, rfl, hbody, hmade⟩
      · exact Or.inl hseen
      · rw [pending_of_step_leaveSub hbody] at hi
        cases b with
        | true => cases hi
        | false =>
          refine Or.inr ⟨es, [], rfl, ⟨hbody, hmade, hold⟩, fun fs hfs => ?_⟩
          rw [List.prefix_nil.1 hfs]
          exact hlast
    · refine Or.inr ⟨before, after ++ [e], by simp, hleft, fun fs hfs => ?_⟩
      rcases List.prefix_concat_iff.1 hfs with rfl | hfs
      · simpa using hlast
      · exact hkept fs hfs

/-- **Where pending accesses come from.** -/
theorem run_tracesPending (schema : Registry) (settings : Settings) (es : List Event) :
    (start schema settings).TracesPending es where
  traced _ hi := (sound_start _ schema settings).pending_run rfl es hi
  inSight hnone i hi := by
    rcases (sound_start _ schema settings).pending_run rfl es hi with
      hseen | ⟨before, after, heq, hleft, -⟩
    · exact hseen
    · exact absurd hleft (hnone before after i heq)
  succeeded hbody := pending_of_step_leaveSub hbody
  failed _ hi := ((sound_start (fun _ => .any) schema settings).run es).sound.leavesBehind hi

/-- A sub-query that fails in the middle of a chain of accesses. -/
def sampleFailing : Stage :=
  (start Sample.registry .default).run
    [.call (.addFrom "Person"), .enterSub, .call (.addFrom "Car"),
      .call (.access ⟨1, .root⟩ "model"), .call (.access ⟨2, .property⟩ "length"),
      .leaveSub false]

/-- An access of a failed sub-query is left pending in the query around it, which does not see its
node and does not compile any more. -/
theorem failed_sub_left_pending : ∃ s : Stage, s.Reachable ∧ s.frames.isEmpty = true ∧
    s.query.pending.nodes = [2] ∧ ¬ s.query.Sees 2 ∧
    s.query.compile.map (·.text) = .error (.danglingAccess ["Car.model"]) := by
  refine ⟨sampleFailing, reachable_start _ _ _, by decide +kernel, by decide +kernel, ?_,
    by decide +kernel⟩
  rintro ⟨r, hr, henc⟩
  have hscope : sampleFailing.query.graph.scope? 2 = some 1 := by decide +kernel
  obtain rfl : 1 = r := Option.some.inj (hscope.symm.trans hr)
  have hout : sampleFailing.query.scopes.encloses 1 sampleFailing.query.current = false := by
    decide +kernel
  rw [hout] at henc
  cases henc

end Stage

end PathQuery
