import GlideMq.Proofs.GoneJobs
import GlideMq.Proofs.PromoteRounds

/-!
# The scheduled set

Few calls put a member into the scheduled set. The others leave it as it is or take members out.
-/

namespace GlideMq

open Queue Redis

/-- The calls that may put a member into the scheduled set. -/
def Call.schedules : Call → Bool
  | .addJob _ | .dedup _ | .fail _ _ | .failAndFetchNext _ _ | .changePriority _ _ _
  | .changeDelay _ _ _ _ | .promoteJob _ | .moveActiveToDelayed _ _ | .retryJobs _ _
  | .retryJob _ _ => true
  | _ => false

/-- No member of the set is new, and none has another score. -/
def ScheduledWithin (s t : Queue) : Prop :=
  ∀ m x, t.scheduled.score m = some x → s.scheduled.score m = some x

section

variable {s₀ s t u : Queue} {c : Option Call}

theorem ScheduledWithin.of_eq (h : t.scheduled = s.scheduled) : ScheduledWithin s t := by
  intro m x hx
  rwa [h] at hx

theorem ScheduledWithin.trans (h : ScheduledWithin s t) (h' : ScheduledWithin t u) :
    ScheduledWithin s u :=
  fun m x hx => h m x (h' m x hx)

theorem ScheduledWithin.rem {m : String} (h : t.scheduled = s.scheduled.rem m) :
    ScheduledWithin s t := by
  intro m' x hx
  rw [h, SortedSet.score_rem] at hx
  split at hx
  · cases hx
  · exact hx

theorem scheduled_of_life (h : t.life = s.life) : t.scheduled = s.scheduled :=
  key_of_life (·.scheduled) (fun _ => rfl) h

theorem scheduled_of_parentFrame (h : t.parentFrame = s.parentFrame) :
    t.scheduled = s.scheduled := by
  have hself (q : Queue) : q.parentFrame.scheduled = q.scheduled := rfl
  rw [← hself, h, hself]

/-! ## Steps -/

theorem doSlot_scheduled (s : Queue) (J : JobId) (slot : Slot) :
    (s.doSlot J slot).scheduled = s.scheduled := by
  cases slot with
  | leave => rfl
  | retain => rfl
  | release hint =>
    change (afterRelease s J hint).scheduled = s.scheduled
    unfold afterRelease
    split <;> rfl
  | closeHole => exact scheduled_of_frame (frame_closeOrderingHole s J)
  | undo =>
    unfold doSlot undoClaim
    simp only
    split <;> rfl
  | take gk => rfl

theorem ackDel_scheduled (s : Queue) (group : Group) (e : Option Nat) :
    (ackDel s group e).scheduled = s.scheduled := by
  cases e <;> rfl

theorem takeFrom_within (s : Queue) (J : JobId) (src : Source) :
    ScheduledWithin s (s.takeFrom J src) := by
  cases src with
  | scheduled m => exact .rem (m := m) rfl
  | _ => exact .of_eq rfl

theorem detach_within (m : Move) (s : Queue) : ScheduledWithin s (m.detach s) := by
  have hfold (l : List Source) (q : Queue) :
      ScheduledWithin q (l.foldl (·.takeFrom m.job) q) := by
    induction l generalizing q with
    | nil => exact .of_eq rfl
    | cons src l ih => exact (takeFrom_within q m.job src).trans (ih _)
  exact (ScheduledWithin.of_eq (ackDel_scheduled s m.group m.entry)).trans (hfold _ _)

theorem put_scheduled {J : JobId} {p : Place} (hp : ¬ p.scheduling) :
    (s.put J p).scheduled = s.scheduled := by
  cases p with
  | scheduled x => exact absurd trivial hp
  | _ => rfl

theorem apply_within {m : Move} (hp : ¬ m.place.scheduling) : ScheduledWithin s (m.apply s) := by
  refine (detach_within m s).trans (.of_eq ?_)
  unfold Move.apply
  rw [doSlot_scheduled]
  exact put_scheduled hp

theorem withdraw_within (m : Move) : ScheduledWithin s (m.withdraw s) :=
  (detach_within m s).trans (.of_eq (doSlot_scheduled _ _ _))

theorem Place.queued.not_scheduling {p : Place} {J : JobId} (h : p.queued s J) :
    ¬ p.scheduling := by
  cases p <;> simp_all [Place.queued, Place.scheduling]

theorem Why.not_scheduling {m : Move} {call : Call} (why : Why s₀ (some call) s m)
    (hcall : call.schedules = false) : ¬ m.place.scheduling := by
  cases why with
  | @retry call' a x hc ha hs hj hagain =>
    cases hc
    cases call <;> simp [Call.failing, Call.schedules] at ha hcall
  | redispatch hc hj hp he => exact hp.not_scheduling
  | takeDue hc hp => exact hp.not_scheduling
  | defer hc hs hj hp => exact hp.not_scheduling
  | reschedule hst he hsrc hp hc =>
    rcases hc with ⟨n, g, hc⟩ | ⟨d, now, g, hc⟩ | hc <;> cases hc <;> cases hcall
  | postpone hst he hc =>
    obtain ⟨a, d, hc, -⟩ := hc
    cases hc
    cases hcall
  | _ => exact fun h => h

theorem QStep.scheduled_within {x y : Cfg} {call : Call} (hstep : QStep s₀ (some call) x y)
    (hcall : call.schedules = false) : ScheduledWithin x.2 y.2 := by
  have hcreates {K : JobId} : ¬ Creates s₀ (some call) K := by
    rintro (hc | ⟨a, hc, -⟩ | ⟨a, hc, -⟩)
    · cases hc
    · cases hc
      cases hcall
    · cases hc
      cases hcall
  cases hstep with
  | quiet ht => exact .of_eq (scheduled_of_life ht)
  | move why hh ht =>
    exact (apply_within (why.not_scheduling hcall)).trans (.of_eq (scheduled_of_life ht))
  | limit gk x => exact .of_eq rfl
  | unlimit gk => exact .of_eq rfl
  | skip gk => exact .of_eq (scheduled_of_frame (frame_skipToNext _ _ _))
  | tombstone hq hj => exact .of_eq (scheduled_of_frame (frame_consumeOrderedTombstone _ _ _ _ _))
  | unpark hq hst => exact .of_eq rfl
  | repark hq x => exact .of_eq rfl
  | ack hst he => exact .of_eq (ackDel_scheduled _ _ _)
  | unclaim hst => exact .of_eq rfl
  | flag hc hj => exact .of_eq rfl
  | unsuspend hst => exact .of_eq rfl
  | @unschedule h s member hc hst => exact .rem (m := member) rfl
  | take why ht => exact (withdraw_within _).trans (.of_eq (scheduled_of_life ht))
  | empty src hsrc => exact takeFrom_within _ _ _
  | unend t hst => cases t <;> exact .of_eq rfl
  | delete => exact .of_eq rfl
  | sweep t hmem => cases t <;> exact .of_eq rfl
  | @drain h s t J hc ht =>
    refine .of_eq ((scheduled_of_life ht).trans ?_)
    have hclosed := scheduled_of_frame (frame_closeOrderingHole s J)
    exact hclosed
  | clearScheduled hgone =>
    intro m x hx
    simp [SortedSet.score, EmptyCollection.emptyCollection, SortedSet.empty] at hx
  | clearList k hgone => cases k <;> exact .of_eq rfl
  | @pop s k J hlast hreach hc => cases k <;> exact .of_eq rfl
  | discard hreach hc hst => exact .of_eq rfl
  | @reserve h s k J hlast => cases k <;> exact .of_eq rfl
  | retry hc hmem hj ht =>
    rcases hc with ⟨count, t, hc⟩ | ⟨J, t, hc⟩ <;> cases hc <;> cases hcall
  | create hc hn hfree ht => exact absurd hc hcreates
  | record hc hJ =>
    cases hc
    cases hcall
  | enqueue hst hp hc => exact absurd hc hcreates

theorem QSteps.scheduled_within {x y : Cfg} {call : Call} (hsteps : QSteps s₀ (some call) x y)
    (hcall : call.schedules = false) : ScheduledWithin x.2 y.2 := by
  induction hsteps with
  | refl => exact .of_eq rfl
  | tail _ hstep ih => exact ih.trans (hstep.scheduled_within hcall)

theorem call_scheduled_within (s : Queue) {call : Call} (hcall : call.schedules = false) :
    ScheduledWithin s (call.run s) :=
  (call_qsteps s call).scheduled_within hcall

end

end GlideMq
