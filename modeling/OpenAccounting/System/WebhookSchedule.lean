import OpenAccounting.System.WebhookRows
import Mathlib.Data.Nat.Digits.Defs

/-!
# The schedule of webhook deliveries

A failed attempt is followed by one with a row and a job of its own, and that job is due at once.
The queue has its own retries for a handler that returns an error, and `deliver` returns one when a
statement fails behind the request.  So the schedule depends on both.  It is kept along every run in
which no statement of `deliver` fails behind the request and no retry is claimed before its time
(`onSchedule_of_careful`).
-/

namespace OpenAccounting.Webhooks

open Commit Relational
open Jobs (ClaimedJob Job)

/-- The requests that were made. -/
def Shared.posts (sh : Shared) : List Call := sh.calls.filter fun c => c.posted

/-- An event is posted to a subscription five times at most, a row once, and the next attempt waits
for its time. -/
structure OnSchedule (sh : Shared) : Prop where
  bounded : ∀ subscription event, (sh.posts.filter fun p =>
    p.attempt.subscriptionId = subscription ∧ p.attempt.eventId = event).length ≤ maxAttempts
  once : (sh.posts.map fun p => p.attempt.id).Nodup
  spaced : ∀ f ∈ sh.failures, ∀ p ∈ sh.posts, p.attempt.Follows f.attempt →
    f.time + wait f.attempt.attempt ≤ p.time

/-- The job may still lead to a request. -/
def Unfinished (s : State) (i : ℕ) : Prop :=
  s.shared.queue.Pending i ∨ ∃ m, ∃ job ∈ (s.place m).unfinished, job.number = i

/-- Between the request and the row of the next attempt. -/
def Place.Ahead (sh : Shared) : Place → Prop
  | .deliver _ _ d _ .posted | .deliver _ _ d _ (.answered _) | .deliver _ _ d _ .failed =>
    sh.Awaits d.toAttempt ∧ ∃ c ∈ sh.calls, c.attempt = d.toAttempt
  | _ => True

/-- The invariant. -/
structure Timely (lib : Libraries) (s : State) : Prop where
  registered : Registered lib s
  /-- Whoever has sent an attempt, nobody sends it again. -/
  sent : ∀ c ∈ s.shared.calls, c.attempt ∈ s.shared.attempts ∧
    ∃ i, Concerns lib s.shared.queue i c.attempt.id ∧ ¬ Unfinished s i
  once : (s.shared.calls.map fun c => c.attempt.id).Nodup
  behind : ∀ a ∈ s.shared.attempts, a.attempt = 0 ∨ ∃ c ∈ s.shared.calls, a.Follows c.attempt
  ahead : ∀ m, (s.place m).Ahead s.shared
  clock : ∀ f ∈ s.shared.failures, f.time ≤ s.shared.queue.now
  after : ∀ f ∈ s.shared.failures, ∀ a ∈ s.shared.attempts, a.Follows f.attempt →
    f.time ≤ a.createdAt
  ripe : ∀ m, ∀ job ∈ (s.place m).unfinished, Ripe lib s.shared job.kind job.payload
  spaced : ∀ f ∈ s.shared.failures, ∀ c ∈ s.shared.calls, c.attempt.Follows f.attempt →
    f.time + wait f.attempt.attempt ≤ c.time

variable {lib : Libraries} {s : State} {n : ℕ}

/-! ## The order of attempts -/

theorem Attempt.Follows.pos {a b : Attempt} (h : a.Follows b) : 0 < a.attempt := by
  rw [h.2.2]
  exact Nat.succ_pos _

theorem Attempt.Follows.key_eq {a b c : Attempt} (h : a.Follows b) (h' : a.Follows c) :
    b.key = c.key := by
  have hattempt : b.attempt = c.attempt := Nat.succ.inj (h.2.2.symm.trans h'.2.2)
  rw [Attempt.key, Attempt.key, ← h.1, ← h'.1, ← h.2.1, ← h'.2.1, hattempt]

theorem Registered.eq_of_follows (h : Registered lib s) {a b c : Attempt}
    (hb : b ∈ s.shared.attempts) (hc : c ∈ s.shared.attempts) (hab : a.Follows b)
    (hac : a.Follows c) : b = c :=
  List.inj_on_of_nodup_map h.keys hb hc (hab.key_eq hac)

/-! ## What a step leaves unfinished -/

variable {job : ClaimedJob} {place place' : Place} {clean : Prop} {sh sh' : Shared}
  {next : Shared × Place} {d : Delivery} {rest : List ClaimedJob} {target : Subscription}

theorem mem_queueing_unfinished (h : job ∈ place.unfinished) : job ∈ place.queueing.unfinished := by
  cases place with
  | queue p => exact h
  | returning job' rest result => exact h
  | emitting | announcing => cases h
  | deliver job' rest d target stage =>
    cases stage with
    | ready => exact h
    | posted | answered | failed | inserted | settled => exact List.mem_cons_of_mem _ h

theorem Moves.unfinished (h : Moves lib sh clean place place') (hclean : clean)
    (hids : (sh.attempts.map Attempt.id).Nodup) (hahead : place.Ahead sh) :
    place'.unfinished ⊆ place.unfinished := by
  cases h with
  | stay => exact List.Subset.refl _
  | fanOut hidle event rest =>
    rw [unfinished_fanOut]
    exact List.nil_subset _
  | select | giveUp | answer | retry | settle => exact List.Subset.refl _
  | abort habort result =>
    rcases habort hclean hids with rfl | ⟨rfl, hfollowed⟩
    · exact List.Subset.refl _
    · exact absurd hahead.1 hfollowed

/-- A thread has to do what it had to do before, or what it claims in time. -/
theorem Acts.unfinished (h : Acts lib n sh place clean next) (hclean : clean)
    (hids : (sh.attempts.map Attempt.id).Nodup) (hplaced : place.Placed lib sh)
    (hahead : place.Ahead sh) (hjob : job ∈ next.2.unfinished) :
    job ∈ place.unfinished ∨
      (∃ r ∈ sh.queue.jobs, r.status = .pending ∧ r.number = job.number) ∧
        Ripe lib sh job.kind job.payload := by
  cases h with
  | quiet _ _ _ _ hmoves => exact Or.inl (hmoves.unfinished hclean hids hahead hjob)
  | queue hplace hfree hripe =>
    subst hplace
    rcases Jobs.act_unfinished hjob with hold | ⟨rfl, limit, locked, rfl, r, hr, rfl⟩
    · exact Or.inl hold
    · obtain ⟨hmem, hpending, -⟩ := Jobs.mem_due hr
      exact Or.inr ⟨⟨r, hmem, hpending, rfl⟩, hripe hclean rfl limit locked rfl r hr⟩
  | crash => cases hjob
  | @finish job' rest result hplace =>
    rcases hplace with rfl | ⟨rfl, d, target, rfl⟩
    · have hreturned : job ∈
          (Jobs.act n sh.queue (.executing job' rest) (.handle result)).2.unfinished := hjob
      rcases Jobs.act_unfinished hreturned with hold | ⟨hidle, -⟩
      · exact Or.inl hold
      · cases hidle
    · have hok : Jobs.dispatch job'.kind (.ok ()) = .ok () := by
        rw [hplaced.2.1]
        rfl
      simp only [Shared.finish, Jobs.act, hok] at hjob
      exact Or.inl hjob
  | insertFirst hplace hnew hattempt hplace' =>
    rcases hplace' with rfl | rfl
    · rw [unfinished_fanOut] at hjob
      cases hjob
    · cases hjob
  | insertNext hplace _ _ _ _ | fail hplace _ =>
    subst hplace
    exact Or.inl hjob
  | enqueue hplace henqueue =>
    rcases hplace with ⟨event, rest, rfl, rfl⟩ | ⟨job', rest, d, target, rfl, rfl⟩
    · rw [unfinished_fanOut] at hjob
      cases hjob
    · exact Or.inl hjob
  | post hplace | refuse hplace _ =>
    subst hplace
    exact Or.inl (List.mem_cons_of_mem _ hjob)

theorem handled_jobs (queue : Jobs.Shared) (number : ℕ) (result : Except String Unit) :
    (queue.handled number result).jobs = queue.jobs := by
  cases result <;> rfl

/-- The table has a row up for a claim that it had, or that was enqueued or given back. -/
theorem Registered.act_pending (h : Registered lib s)
    (hacts : Acts lib n s.shared (s.place n) clean next) {i : ℕ} (hi : next.1.queue.Pending i) :
    i = s.shared.queue.inserted.length ∨ s.shared.queue.Pending i ∨
      ∃ job ∈ (s.place n).unfinished, job.number = i := by
  cases hacts with
  | quiet hqueue _ _ _ _ => exact Or.inr (Or.inl (hqueue ▸ hi))
  | @queue p a hplace hfree hripe =>
    have hp : (queueOf s).place n = p := by
      show (s.place n).queueing = p
      rw [hplace]
      rfl
    have hpending : (Jobs.act n (queueOf s).shared ((queueOf s).place n) a).1.Pending i := by
      rw [hp]
      exact hi
    rcases h.sound.act_pending hpending with hnew | hold | hunfinished
    · exact Or.inl hnew
    · exact Or.inr (Or.inl hold)
    · rw [hp] at hunfinished
      rw [hplace]
      exact Or.inr (Or.inr hunfinished)
  | crash | insertFirst | insertNext | post | refuse | fail => exact Or.inr (Or.inl hi)
  | @finish job rest result hplace =>
    obtain ⟨r, hr, hsame⟩ := hi
    refine Or.inr (Or.inl ⟨r, ?_, hsame⟩)
    rw [← handled_jobs s.shared.queue job.number (Jobs.dispatch job.kind result)]
    exact hr
  | @enqueue place' id d queue hplace henqueue =>
    obtain ⟨⟨row, jobs⟩, hrow, hqueue⟩ := bind_eq_ok.mp henqueue
    cases hqueue
    obtain ⟨-, hfresh, rfl⟩ := Jobs.enqueue_eq_ok hrow
    obtain ⟨r, hr, hnumber, hpending⟩ := hi
    rcases List.mem_append.mp hr with hr | hr
    · exact Or.inr (Or.inl ⟨r, hr, hnumber, hpending⟩)
    · rw [List.mem_singleton.mp hr, hfresh.number] at hnumber
      exact Or.inl hnumber.symm

theorem Acts.inserted (h : Acts lib n sh place clean next) :
    ∃ more, next.1.queue.inserted = sh.queue.inserted ++ more := by
  have hact : ∀ (p : Jobs.Place) (a : Jobs.Action), ∃ more,
      (Jobs.act n sh.queue p a).1.inserted = sh.queue.inserted ++ more := by
    intro p a
    rcases Jobs.act_inserted n sh.queue p a with h | ⟨_, _, _, _, _, row, _, _, _, h⟩
    · exact ⟨[], h.trans (List.append_nil _).symm⟩
    · exact ⟨[row], congrArg Jobs.Shared.inserted h⟩
  rcases h.queueing with h | ⟨a, h⟩
  · exact ⟨[], (congrArg Jobs.Shared.inserted (Prod.mk.inj h).1).trans (List.append_nil _).symm⟩
  · obtain ⟨more, hmore⟩ := hact place.queueing a
    exact ⟨more, (congrArg (fun x => x.1.inserted) h).trans hmore⟩

theorem Acts.now_le (h : Acts lib n sh place clean next) : sh.queue.now ≤ next.1.queue.now := by
  rcases h.queueing with h | ⟨a, h⟩
  · exact (congrArg Jobs.Shared.now (Prod.mk.inj h).1).ge
  · exact (Jobs.act_now_le n sh.queue place.queueing a).trans
      (congrArg (fun x => x.1.now) h).ge

theorem Timely.unfinished (h : Timely lib s) (hacts : Acts lib n s.shared (s.place n) clean next)
    (hclean : clean) {i : ℕ} {d : Uuid} (hi : Concerns lib s.shared.queue i d)
    (hunfinished : Unfinished ⟨next.1, Function.update s.place n next.2⟩ i) : Unfinished s i := by
  rcases hunfinished with hpending | ⟨m, job, hjob, hnumber⟩
  · rcases h.registered.act_pending hacts hpending with rfl | hold | hold
    · obtain ⟨j, hj, -⟩ := hi
      exact absurd (List.getElem?_eq_some_iff.mp hj).1 (lt_irrefl _)
    · exact Or.inl hold
    · exact Or.inr ⟨n, hold⟩
  · replace hjob : job ∈ (Function.update s.place n next.2 m).unfinished := hjob
    by_cases hm : m = n
    · subst hm
      rw [Function.update_self] at hjob
      rcases hacts.unfinished hclean h.registered.ids (h.registered.placed m) (h.ahead m) hjob with
        hold | ⟨⟨r, hr, hpending, hrow⟩, -⟩
      · exact Or.inr ⟨m, job, hold, hnumber⟩
      · exact Or.inl ⟨r, hr, hrow.trans hnumber, hpending⟩
    · rw [Function.update_of_ne hm] at hjob
      exact Or.inr ⟨m, job, hjob, hnumber⟩

/-! ## What the invariant needs of a step -/

theorem Ripe.mono {kind payload : String} (h : Ripe lib sh kind payload)
    (hattempts : sh'.attempts ⊆ sh.attempts) (hnow : sh.queue.now ≤ sh'.queue.now) :
    Ripe lib sh' kind payload :=
  fun hkind a ha hpayload hpos => (h hkind a (hattempts ha) hpayload hpos).trans hnow

theorem Place.Ahead.mono (h : place.Ahead sh) (hattempts : sh'.attempts = sh.attempts)
    (hcalls : sh.calls ⊆ sh'.calls) :
    place.Ahead sh' := by
  have hdelivery : ∀ d : Delivery, (sh.Awaits d.toAttempt ∧ ∃ c ∈ sh.calls, c.attempt = d.toAttempt) →
      sh'.Awaits d.toAttempt ∧ ∃ c ∈ sh'.calls, c.attempt = d.toAttempt := by
    rintro d ⟨hawaits, c, hc, heq⟩
    refine ⟨?_, c, hcalls hc, heq⟩
    rw [Shared.Awaits, hattempts]
    exact hawaits
  cases place with
  | queue | returning | emitting | announcing => exact trivial
  | deliver job rest d target stage =>
    cases stage with
    | posted | answered | failed => exact hdelivery d h
    | ready | inserted | settled => exact trivial

/-- A step that adds no row, request or failure keeps the schedule. -/
theorem Timely.keep (h : Timely lib s)
    (hregistered : Registered lib ⟨sh', Function.update s.place n place'⟩)
    (hattempts : sh'.attempts = s.shared.attempts) (hcalls : sh'.calls = s.shared.calls)
    (hfailures : sh'.failures = s.shared.failures) (hnow : s.shared.queue.now ≤ sh'.queue.now)
    (hinserted : ∃ more, sh'.queue.inserted = s.shared.queue.inserted ++ more)
    (hunfinished : ∀ i d, Concerns lib s.shared.queue i d →
      Unfinished ⟨sh', Function.update s.place n place'⟩ i → Unfinished s i)
    (hahead : place'.Ahead sh')
    (hripe : ∀ job ∈ place'.unfinished, Ripe lib sh' job.kind job.payload) :
    Timely lib ⟨sh', Function.update s.place n place'⟩ where
  registered := hregistered
  sent := by
    obtain ⟨more, hmore⟩ := hinserted
    intro c hc
    rw [hcalls] at hc
    obtain ⟨hmem, i, hi, hdone⟩ := h.sent c hc
    exact ⟨hattempts ▸ hmem, i, concerns_append hmore hi, fun hnot => hdone (hunfinished i _ hi hnot)⟩
  once := by
    show (sh'.calls.map fun c => c.attempt.id).Nodup
    rw [hcalls]
    exact h.once
  behind := by
    intro a ha
    show a.attempt = 0 ∨ ∃ c ∈ sh'.calls, a.Follows c.attempt
    rw [hcalls]
    exact h.behind a (hattempts ▸ ha)
  ahead := (Function.forall_update_iff s.place fun _ place => place.Ahead sh').mpr
    ⟨hahead, fun m _ => (h.ahead m).mono hattempts (hcalls ▸ List.Subset.refl _)⟩
  clock := by
    intro f hf
    exact (h.clock f (hfailures ▸ hf)).trans hnow
  after := by
    intro f hf a ha
    exact h.after f (hfailures ▸ hf) a (hattempts ▸ ha)
  ripe := (Function.forall_update_iff s.place fun _ place => ∀ job ∈ place.unfinished,
      Ripe lib sh' job.kind job.payload).mpr
    ⟨hripe, fun m _ job hjob => (h.ripe m job hjob).mono (hattempts ▸ List.Subset.refl _) hnow⟩
  spaced := by
    intro f hf c hc
    exact h.spaced f (hfailures ▸ hf) c (hcalls ▸ hc)

theorem Registered.known (h : Registered lib s) {m : ℕ} (hjob : job ∈ (s.place m).unfinished)
    (hkind : job.kind = deliveryKind) {id : Uuid} (hpayload : job.payload = lib.payload id) :
    ∃ a ∈ s.shared.attempts, a.id = id := by
  obtain ⟨x, hx, rfl⟩ := Jobs.mem_jobs_of_unfinished (mem_queueing_unfinished hjob)
  obtain ⟨j, hj, hjkind, hjpayload⟩ := h.inserted m x hx
  obtain ⟨a, ha, hlisted⟩ := h.listed j (List.mem_of_getElem? hj) (hjkind.trans hkind)
  exact ⟨a, ha, Libraries.payload_inj (hlisted.symm.trans (hjpayload.trans hpayload))⟩

/-- A new row that is a first attempt or follows a request keeps it, too. -/
theorem Timely.addRow (h : Timely lib s) {row : Delivery} (hregistered : Registered lib
      ⟨{ s.shared with deliveries := s.shared.deliveries ++ [row] }, Function.update s.place n place'⟩)
    (hnew : s.shared.New row)
    (hbehind : row.attempt = 0 ∨ ∃ c ∈ s.shared.calls, row.toAttempt.Follows c.attempt)
    (hothers : ∀ m ≠ n, (s.place m).Ahead
      { s.shared with deliveries := s.shared.deliveries ++ [row] })
    (hahead : place'.Ahead { s.shared with deliveries := s.shared.deliveries ++ [row] })
    (hunfinished : ∀ i d, Concerns lib s.shared.queue i d → Unfinished
      ⟨{ s.shared with deliveries := s.shared.deliveries ++ [row] }, Function.update s.place n place'⟩
        i → Unfinished s i) (hsub : place'.unfinished ⊆ (s.place n).unfinished) :
    Timely lib
      ⟨{ s.shared with deliveries := s.shared.deliveries ++ [row] },
        Function.update s.place n place'⟩ := by
  have hattempts := attempts_concat s.shared row
  have hripe : ∀ m, ∀ job ∈ (s.place m).unfinished, Ripe lib
      { s.shared with deliveries := s.shared.deliveries ++ [row] } job.kind job.payload := by
    intro m job hjob hkind a ha hpayload hpos
    rw [hattempts] at ha
    rcases List.mem_append.mp ha with ha | ha
    · exact h.ripe m job hjob hkind a ha hpayload hpos
    · rw [List.mem_singleton.mp ha] at hpayload
      obtain ⟨b, hb, hid⟩ := h.registered.known hjob hkind hpayload
      obtain ⟨d, hd, rfl⟩ := List.mem_map.mp hb
      exact absurd hid (hnew.id d hd)
  refine ⟨hregistered, ?_, h.once, ?_, ?_, h.clock, ?_, ?_, h.spaced⟩
  · intro c hc
    obtain ⟨hmem, i, hi, hdone⟩ := h.sent c hc
    refine ⟨?_, i, hi, fun hnot => hdone (hunfinished i _ hi hnot)⟩
    rw [hattempts]
    exact List.mem_append_left _ hmem
  · intro a ha
    rw [hattempts] at ha
    rcases List.mem_append.mp ha with ha | ha
    · exact h.behind a ha
    · rw [List.mem_singleton.mp ha]
      exact hbehind
  · exact (Function.forall_update_iff s.place fun _ place => place.Ahead _).mpr ⟨hahead, hothers⟩
  · intro f hf a ha hfollows
    rw [hattempts] at ha
    rcases List.mem_append.mp ha with ha | ha
    · exact h.after f hf a ha hfollows
    · rw [List.mem_singleton.mp ha]
      exact (h.clock f hf).trans hnew.createdAt.ge
  · exact (Function.forall_update_iff s.place fun _ place => ∀ job ∈ place.unfinished,
      Ripe lib _ job.kind job.payload).mpr
      ⟨fun job hjob => hripe n job (hsub hjob), fun m _ => hripe m⟩

theorem Timely.unsent (h : Timely lib s) (hplace : s.place n = .deliver job rest d target .ready) :
    ∀ c ∈ s.shared.calls, c.attempt.id ≠ d.id := by
  intro c hc hid
  obtain ⟨-, i, hi, hdone⟩ := h.sent c hc
  have hnumber : i = job.number :=
    h.registered.one i job.number d.id (hid ▸ hi) (h.registered.concerns hplace)
  refine hdone (Or.inr ⟨n, job, ?_, hnumber.symm⟩)
  rw [hplace]
  exact List.mem_cons_self

theorem Registered.spent (h : Registered lib s)
    (hplace : s.place n = .deliver job rest d target .ready) (hqueue : sh'.queue = s.shared.queue)
    (hplace' : place'.unfinished = rest) :
    ¬ Unfinished ⟨sh', Function.update s.place n place'⟩ job.number := by
  have hexecuting : (queueOf s).place n = .executing job rest := by
    show (s.place n).queueing = _
    rw [hplace]
    rfl
  obtain ⟨hrunning, hrest, hothers⟩ := h.sound.alone hexecuting
  rintro (⟨r, hr, hnumber, hpending⟩ | ⟨m, job', hjob', hnumber⟩)
  · replace hr : r ∈ s.shared.queue.jobs := hqueue ▸ hr
    cases (hrunning r hr hnumber).symm.trans hpending
  · replace hjob' : job' ∈ (Function.update s.place n place' m).unfinished := hjob'
    by_cases hm : m = n
    · rw [hm, Function.update_self, hplace'] at hjob'
      exact hrest job' hjob' hnumber
    · rw [Function.update_of_ne hm] at hjob'
      obtain ⟨x, hx, rfl⟩ := Jobs.mem_jobs_of_unfinished (mem_queueing_unfinished hjob')
      exact hothers m hm x hx hnumber

/-- A request is the only one of its row. -/
theorem Timely.addCall (h : Timely lib s) (hplace : s.place n = .deliver job rest d target .ready)
    {posted : Bool} {stage : Stage} (hregistered : Registered lib ⟨s.shared.called d posted,
      Function.update s.place n (.deliver job rest d target stage)⟩)
    (hstage : stage = .posted ∨ ∃ outcome, stage = .answered outcome) :
    Timely lib ⟨s.shared.called d posted,
      Function.update s.place n (.deliver job rest d target stage)⟩ := by
  have hplaced := h.registered.placed n
  rw [hplace] at hplaced
  obtain ⟨hmem, hkind, hpayload, -⟩ := hplaced
  have hunsent := h.unsent hplace
  have hrest : (Place.deliver job rest d target stage).unfinished = rest := by
    rcases hstage with rfl | ⟨outcome, rfl⟩ <;> rfl
  have hsub : ∀ m, (Function.update s.place n (.deliver job rest d target stage) m).unfinished ⊆
      (s.place m).unfinished := by
    refine (Function.forall_update_iff s.place fun m place =>
      place.unfinished ⊆ (s.place m).unfinished).mpr ⟨?_, fun m _ => List.Subset.refl _⟩
    rw [hrest, hplace]
    exact List.subset_cons_self _ _
  have hawaits : s.shared.Awaits d.toAttempt := by
    refine ⟨hmem, fun b hb hfollows => ?_⟩
    rcases h.behind b hb with hzero | ⟨c, hc, hbehind⟩
    · exact absurd hzero hfollows.pos.ne'
    · have heq := h.registered.eq_of_follows (h.sent c hc).1 hmem hbehind hfollows
      exact hunsent c hc (congrArg Attempt.id heq)
  have hcall : (⟨d.toAttempt, s.shared.queue.now, posted⟩ : Call) ∈ (s.shared.called d posted).calls :=
    List.mem_append_right _ (List.mem_singleton_self _)
  refine ⟨hregistered, ?_, ?_, ?_, ?_, h.clock, h.after, ?_, ?_⟩
  · intro c hc
    rcases List.mem_append.mp hc with hc | hc
    · obtain ⟨hc, i, hi, hdone⟩ := h.sent c hc
      refine ⟨hc, i, hi, fun hnot => hdone ?_⟩
      rcases hnot with hpending | ⟨m, job', hjob', hnumber⟩
      · exact Or.inl hpending
      · exact Or.inr ⟨m, job', hsub m hjob', hnumber⟩
    · rw [List.mem_singleton.mp hc]
      exact ⟨hmem, job.number, h.registered.concerns hplace, h.registered.spent hplace rfl hrest⟩
  · exact nodup_map_concat.mpr ⟨h.once, hunsent⟩
  · intro a ha
    exact (h.behind a ha).imp_right fun ⟨c, hc, hfollows⟩ => ⟨c, List.mem_append_left _ hc, hfollows⟩
  · refine (Function.forall_update_iff s.place fun _ place =>
      place.Ahead (s.shared.called d posted)).mpr
        ⟨?_, fun m _ => (h.ahead m).mono rfl (List.subset_append_left _ _)⟩
    rcases hstage with rfl | ⟨outcome, rfl⟩
    · exact ⟨hawaits, _, hcall, rfl⟩
    · exact ⟨hawaits, _, hcall, rfl⟩
  · intro m job' hjob'
    exact h.ripe m job' (hsub m hjob')
  · intro f hf c hc hfollows
    rcases List.mem_append.mp hc with hc | hc
    · exact h.spaced f hf c hc hfollows
    · rw [List.mem_singleton.mp hc] at hfollows ⊢
      have hjob : job ∈ (s.place n).unfinished := by
        rw [hplace]
        exact List.mem_cons_self
      have hdue := h.ripe n job hjob hkind d.toAttempt hmem hpayload hfollows.pos
      have hattempt : d.attempt - 1 = f.attempt.attempt := by
        rw [hfollows.2.2]
        rfl
      rw [hattempt] at hdue
      have hcreated := h.after f hf d.toAttempt hmem hfollows
      show f.time + wait f.attempt.attempt ≤ s.shared.queue.now
      omega

theorem Timely.addFailure (h : Timely lib s) (hawaits : s.shared.Awaits d.toAttempt)
    (hregistered : Registered lib ⟨s.shared.failed d, s.place⟩) :
    Timely lib ⟨s.shared.failed d, s.place⟩ := by
  refine ⟨hregistered, h.sent, h.once, h.behind, fun m => (h.ahead m).mono rfl (List.Subset.refl _),
    ?_, ?_, h.ripe, ?_⟩
  · intro f hf
    rcases List.mem_append.mp hf with hf | hf
    · exact h.clock f hf
    · rw [List.mem_singleton.mp hf]
      exact le_rfl
  · intro f hf a ha hfollows
    rcases List.mem_append.mp hf with hf | hf
    · exact h.after f hf a ha hfollows
    · rw [List.mem_singleton.mp hf] at hfollows
      exact absurd hfollows (hawaits.2 a ha)
  · intro f hf c hc hfollows
    rcases List.mem_append.mp hf with hf | hf
    · exact h.spaced f hf c hc hfollows
    · rw [List.mem_singleton.mp hf] at hfollows
      exact absurd hfollows (hawaits.2 _ (h.sent c hc).1)

/-! ## Every step -/

theorem Registered.of_tables {places : ℕ → Place} (h : Registered lib ⟨sh, places⟩)
    (hqueue : sh'.queue = sh.queue) (hattempts : sh'.attempts = sh.attempts) :
    Registered lib ⟨sh', places⟩ := by
  have hsound : Jobs.Sound (queueOf ⟨sh', places⟩) := by
    rw [queueOf, hqueue]
    exact h.sound
  refine ⟨hsound, hqueue ▸ h.genuine, hattempts ▸ h.ids, hattempts ▸ h.keys, hattempts ▸ h.few,
    ?_, hqueue ▸ h.one, ?_, h.announcer, fun m => (h.placed m).mono fun a ha => hattempts ▸ ha⟩
  · show ∀ j ∈ sh'.queue.inserted, j.kind = deliveryKind →
      ∃ a ∈ sh'.attempts, j.payload = lib.payload a.id
    rw [hqueue, hattempts]
    exact h.listed
  · show ∀ m d, (places m).announced = some d →
      (∃ a ∈ sh'.attempts, a.id = d) ∧ ∀ i, ¬ Concerns lib sh'.queue i d
    rw [hqueue, hattempts]
    exact h.announced

theorem ahead_fanOut (sh : Shared) (event : Event) (rest : List Uuid) :
    (Place.fanOut event rest).Ahead sh := by
  cases rest <;> exact trivial

theorem Moves.ahead (h : Moves lib sh clean place place') (hahead : place.Ahead sh) :
    place'.Ahead sh := by
  cases h with
  | stay | answer | retry => exact hahead
  | fanOut hidle event rest => exact ahead_fanOut sh event rest
  | select | giveUp | abort | settle => exact trivial

theorem Place.Ahead.concat {row : Delivery} (h : place.Ahead sh)
    (hrow : ∀ job rest d target stage, place = .deliver job rest d target stage →
      sh.Awaits d.toAttempt → ¬ row.toAttempt.Follows d.toAttempt) :
    place.Ahead { sh with deliveries := sh.deliveries ++ [row] } := by
  have hdelivery : ∀ d : Delivery, ¬ row.toAttempt.Follows d.toAttempt →
      (sh.Awaits d.toAttempt ∧ ∃ c ∈ sh.calls, c.attempt = d.toAttempt) →
      Shared.Awaits { sh with deliveries := sh.deliveries ++ [row] } d.toAttempt ∧
        ∃ c ∈ sh.calls, c.attempt = d.toAttempt := by
    rintro d hnot ⟨⟨hmem, hnone⟩, hsent⟩
    refine ⟨⟨?_, fun b hb => ?_⟩, hsent⟩
    · rw [attempts_concat]
      exact List.mem_append_left _ hmem
    · rw [attempts_concat] at hb
      rcases List.mem_append.mp hb with hb | hb
      · exact hnone b hb
      · rw [List.mem_singleton.mp hb]
        exact hnot
  cases place with
  | queue | returning | emitting | announcing => exact trivial
  | deliver job rest d target stage =>
    cases stage with
    | posted | answered | failed => exact hdelivery d (hrow _ _ _ _ _ rfl h.1) h
    | ready | inserted | settled => exact trivial

theorem Timely.insertNext (h : Timely lib s) {d' row : Delivery} {next : Uuid}
    (hplace : s.place n = .deliver job rest d target .failed) (hd' : d' ∈ s.shared.deliveries)
    (hid : d'.id = d.id) (hnew : s.shared.New row) (hrow : row.toAttempt =
      ⟨next, d'.subscriptionId, d'.eventId, d.attempt + 1, s.shared.queue.now⟩)
    (hregistered : Registered lib
      ⟨{ s.shared with deliveries := s.shared.deliveries ++ [row] },
        Function.update s.place n (.deliver job rest d target (.inserted next))⟩)
    (hunfinished : ∀ i e, Concerns lib s.shared.queue i e → Unfinished
      ⟨{ s.shared with deliveries := s.shared.deliveries ++ [row] },
        Function.update s.place n (.deliver job rest d target (.inserted next))⟩ i →
        Unfinished s i) :
    Timely lib
      ⟨{ s.shared with deliveries := s.shared.deliveries ++ [row] },
        Function.update s.place n (.deliver job rest d target (.inserted next))⟩ := by
  have hahead := h.ahead n
  rw [hplace] at hahead
  obtain ⟨⟨hmem, -⟩, c, hc, hsent⟩ := hahead
  have hsame : d'.toAttempt = d.toAttempt :=
    List.inj_on_of_nodup_map h.registered.ids (mem_attempts hd') hmem hid
  have hfollows : row.toAttempt.Follows d.toAttempt := by
    rw [← hsame, hrow]
    exact ⟨rfl, rfl, congrArg (· + 1) (congrArg Attempt.attempt hsame).symm⟩
  refine h.addRow hregistered hnew (Or.inr ⟨c, hc, hsent ▸ hfollows⟩) (fun m hm => ?_) trivial
    hunfinished ?_
  · refine (h.ahead m).concat ?_
    intro job' rest' e target' stage' hplace' hawaits hnext
    have heq := h.registered.eq_of_follows hawaits.1 hmem hnext hfollows
    exact hm (h.registered.deliverer hplace' hplace (congrArg Attempt.id heq))
  · rw [hplace]
    exact List.Subset.refl _

/-- The invariant, for one careful step. -/
theorem Timely.step (h : Timely lib s) {m : ℕ × Action}
    (hC : Careful lib s.shared (s.place m.1) m.2) : Timely lib (step lib s m) := by
  obtain ⟨n, a⟩ := m
  have hacts := act_acts lib n s.shared (s.place n) a
  have hregistered : Registered lib ⟨(act lib n s.shared (s.place n) a).1,
    Function.update s.place n (act lib n s.shared (s.place n) a).2⟩ := h.registered.step (n, a)
  have hnow := hacts.now_le
  have hinserted := hacts.inserted
  have hunfinished : ∀ i d, Concerns lib s.shared.queue i d → _ → Unfinished s i :=
    fun i d hi => h.unfinished hacts hC hi
  have hripe : ∀ job ∈ (act lib n s.shared (s.place n) a).2.unfinished,
      Ripe lib s.shared job.kind job.payload := by
    intro job hjob
    rcases hacts.unfinished hC h.registered.ids (h.registered.placed n) (h.ahead n) hjob with
      hold | ⟨-, hripe⟩
    · exact h.ripe n job hold
    · exact hripe
  have hahead := h.ahead n
  show Timely lib ⟨(act lib n s.shared (s.place n) a).1,
    Function.update s.place n (act lib n s.shared (s.place n) a).2⟩
  generalize act lib n s.shared (s.place n) a = next at *
  cases hacts with
  | quiet hqueue hattempts hcalls hfailures hmoves =>
    exact h.keep hregistered hattempts hcalls hfailures hnow hinserted hunfinished
      ((hmoves.ahead hahead).mono hattempts (hcalls ▸ List.Subset.refl _))
      fun job hjob => (hripe job hjob).mono (hattempts ▸ List.Subset.refl _) hnow
  | queue | crash | finish =>
    exact h.keep hregistered rfl rfl rfl hnow hinserted hunfinished trivial
      fun job hjob => (hripe job hjob).mono (List.Subset.refl _) hnow
  | enqueue hplace henqueue =>
    refine h.keep hregistered rfl rfl rfl hnow hinserted hunfinished ?_
      fun job hjob => (hripe job hjob).mono (List.Subset.refl _) hnow
    rcases hplace with ⟨event, rest, -, rfl⟩ | ⟨job, rest, d, target, -, rfl⟩
    · exact ahead_fanOut _ event rest
    · exact trivial
  | @insertFirst row event rest place' hplace hnew hattempt hplace' =>
    refine h.addRow hregistered hnew (Or.inl hattempt) (fun m _ => (h.ahead m).concat ?_) ?_
      hunfinished ?_
    · intro job' rest' e target' stage' _ _ hnext
      exact absurd hattempt hnext.pos.ne'
    · rcases hplace' with rfl | rfl
      · exact ahead_fanOut _ event rest
      · exact trivial
    · rcases hplace' with rfl | rfl
      · rw [unfinished_fanOut]
        exact List.nil_subset _
      · exact List.nil_subset _
  | insertNext hplace hd' hid hnew hrow =>
    exact h.insertNext hplace hd' hid hnew hrow hregistered hunfinished
  | post hplace => exact h.addCall hplace hregistered (Or.inl rfl)
  | @refuse job rest d target hplace e =>
    have hcalls : Registered lib ⟨s.shared.called d false,
        Function.update s.place n (.deliver job rest d target (.answered (.error e)))⟩ :=
      hregistered.of_tables rfl rfl
    have hcalled := h.addCall hplace hcalls (Or.inr ⟨.error e, rfl⟩)
    have hawaits : (Function.update s.place n
        (.deliver job rest d target (.answered (.error e))) n).Ahead (s.shared.called d false) :=
      hcalled.ahead n
    rw [Function.update_self] at hawaits
    exact hcalled.addFailure hawaits.1 hregistered
  | @fail job rest d target hplace outcome =>
    rw [hplace] at hahead
    have hmove : Registered lib ⟨s.shared,
        Function.update s.place n (.deliver job rest d target (.answered outcome))⟩ :=
      hregistered.of_tables rfl rfl
    have hmoved := h.keep hmove rfl rfl rfl le_rfl ⟨[], (List.append_nil _).symm⟩ hunfinished
      hahead hripe
    exact hmoved.addFailure hahead.1 hregistered

/-! ## Every run -/

theorem Shared.mem_posts {c : Call} (h : c ∈ sh.posts) : c ∈ sh.calls :=
  List.mem_of_mem_filter h

/-- What a timely state says of the requests. -/
theorem Timely.onSchedule (h : Timely lib s) : OnSchedule s.shared where
  bounded subscription event := by
    let posts := s.shared.posts.filter fun p =>
      p.attempt.subscriptionId = subscription ∧ p.attempt.eventId = event
    have hcall : ∀ p ∈ posts, p ∈ s.shared.calls := fun p hp =>
      Shared.mem_posts (List.mem_of_mem_filter hp)
    have hpair : ∀ p ∈ posts, p.attempt.subscriptionId = subscription ∧ p.attempt.eventId = event :=
      fun p hp => of_decide_eq_true (List.mem_filter.mp hp).2
    have hposts : posts.Nodup := (h.once.of_map _).sublist
      (List.filter_sublist.trans List.filter_sublist)
    have hnumbers : (posts.map fun p => p.attempt.attempt).Nodup := by
      refine hposts.map_on fun p hp q hq heq => ?_
      have hkey : p.attempt.key = q.attempt.key := by
        obtain ⟨hpsub, hpevent⟩ := hpair p hp
        obtain ⟨hqsub, hqevent⟩ := hpair q hq
        rw [Attempt.key, Attempt.key, hpsub, hpevent, hqsub, hqevent, heq]
      have hattempt := List.inj_on_of_nodup_map h.registered.keys (h.sent p (hcall p hp)).1
        (h.sent q (hcall q hq)).1 hkey
      exact List.inj_on_of_nodup_map h.once (hcall p hp) (hcall q hq)
        (congrArg Attempt.id hattempt)
    have hfew : (posts.map fun p => p.attempt.attempt) ⊆ List.range maxAttempts := by
      intro k hk
      obtain ⟨p, hp, rfl⟩ := List.mem_map.mp hk
      exact List.mem_range.mpr (h.registered.few _ (h.sent p (hcall p hp)).1)
    have hlength := (hnumbers.subperm hfew).length_le
    rwa [List.length_map, List.length_range] at hlength
  once := h.once.sublist (List.filter_sublist.map _)
  spaced f hf p hp hfollows := h.spaced f hf p (Shared.mem_posts hp) hfollows

/-- Before the first event. -/
structure Fresh (s : State) : Prop where
  queue : Jobs.Fresh (queueOf s)
  idle : ∀ n, s.place n = .queue .idle
  others : ∀ j ∈ s.shared.queue.jobs, j.kind ≠ deliveryKind
  deliveries : s.shared.deliveries = []
  calls : s.shared.calls = []
  failures : s.shared.failures = []

theorem Fresh.registered (h : Fresh s) : Registered lib s := by
  have hinserted : s.shared.queue.inserted = s.shared.queue.jobs := h.queue.jobs
  have hattempts : s.shared.attempts = [] := by
    rw [Shared.attempts, h.deliveries]
    rfl
  have hconcerns : ∀ i d, ¬ Concerns lib s.shared.queue i d := by
    rintro i d ⟨j, hj, hkind, -⟩
    rw [hinserted] at hj
    exact h.others j (List.mem_of_getElem? hj) hkind
  have hannounced : ∀ m, (s.place m).announced = none := fun m => by
    rw [h.idle]
    rfl
  refine ⟨h.queue.sound, ?_, ?_, ?_, ?_, ?_, fun i _ d hi => absurd hi (hconcerns i d), ?_, ?_, ?_⟩
  · intro r hr
    obtain ⟨i, hi⟩ := List.mem_iff_getElem?.mp hr
    refine ⟨r, ?_, rfl, rfl⟩
    rw [(h.queue.fresh i r hi).number, hinserted]
    exact hi
  · rw [hattempts]
    exact List.nodup_nil
  · rw [hattempts]
    exact List.nodup_nil
  · rw [hattempts]
    exact fun a ha => by cases ha
  · rw [hinserted]
    exact fun j hj hkind => absurd hkind (h.others j hj)
  · intro m d hd
    rw [hannounced] at hd
    cases hd
  · intro m m' d hd
    rw [hannounced] at hd
    cases hd
  · intro m
    rw [h.idle]
    exact trivial

theorem Fresh.timely (h : Fresh s) : Timely lib s := by
  have hattempts : s.shared.attempts = [] := by
    rw [Shared.attempts, h.deliveries]
    rfl
  refine ⟨h.registered, ?_, ?_, ?_, fun m => ?_, ?_, ?_, fun m => ?_, ?_⟩
  · rw [h.calls]
    exact fun c hc => by cases hc
  · rw [h.calls]
    exact List.nodup_nil
  · rw [hattempts]
    exact fun a ha => by cases ha
  · rw [h.idle]
    exact trivial
  · rw [h.failures]
    exact fun f hf => by cases hf
  · rw [h.failures]
    exact fun f hf => by cases hf
  · rw [h.idle]
    exact fun job hjob => by cases hjob
  · rw [h.failures]
    exact fun f hf => by cases hf

/-- The schedule is kept while no statement of `deliver` fails behind the request and no retry is
claimed before its time. -/
theorem onSchedule_of_careful {actions : List (ℕ × Action)} (h : Fresh s)
    (hcareful : Runs.Meets (step lib) (fun s m => Careful lib s.shared (s.place m.1) m.2) s actions) :
    ∀ s' ∈ Runs.visited (step lib) s actions, OnSchedule s'.shared := by
  have hstep : ∀ s m, Timely lib s → Careful lib s.shared (s.place m.1) m.2 →
      Timely lib (step lib s m) := fun _ _ hs hC => hs.step hC
  intro s' hs'
  exact (Runs.invariant_of_meets hstep h.timely hcareful s' hs').onSchedule

namespace Sample

/-- The value of a hexadecimal digit. -/
def hexValue (c : Char) : ℕ := if c.isDigit then c.toNat - 48 else c.toNat - 87

def readDelivery (text : String) : ℕ :=
  Nat.ofDigits 16 ((((text.toList.drop 16).take 36).filter (· ≠ '-')).map hexValue).reverse

def payloadStart : String := "\x7b\"delivery_id\":\""

def payload (id : Uuid) : String := payloadStart ++ id.hyphenated ++ "\"\x7d"

theorem hexValue_digitChar : ∀ n < 16, hexValue (Nat.digitChar n) = n := by decide

theorem digitChar_ne_hyphen : ∀ n < 16, Nat.digitChar n ≠ '-' := by decide

theorem ofDigits_range (n k : ℕ) :
    Nat.ofDigits 16 ((List.range k).map fun i => n / 16 ^ i % 16) = n % 16 ^ k := by
  induction k with
  | zero => simp [Nat.mod_one]
  | succ k ih =>
    rw [List.range_succ, List.map_append, Nat.ofDigits_append, ih, List.length_map,
      List.length_range, Nat.mod_pow_succ]
    simp

/-- The digits of an identifier, the first one first. -/
def hexDigits (id : Uuid) : List Char :=
  (List.range 32).reverse.map fun i => Nat.digitChar (id.val / 16 ^ i % 16)

theorem hexDigits_ne_hyphen (id : Uuid) : ∀ c ∈ hexDigits id, c ≠ '-' := by
  intro c hc
  obtain ⟨i, -, rfl⟩ := List.mem_map.mp hc
  exact digitChar_ne_hyphen _ (Nat.mod_lt _ (by decide))

theorem length_hexDigits (id : Uuid) : (hexDigits id).length = 32 := by
  rw [hexDigits, List.length_map, List.length_reverse, List.length_range]

theorem toList_hyphenated (id : Uuid) : id.hyphenated.toList =
    (hexDigits id).take 8 ++ '-' :: (((hexDigits id).drop 8).take 4 ++ '-' ::
      (((hexDigits id).drop 12).take 4 ++ '-' :: (((hexDigits id).drop 16).take 4 ++ '-' ::
        (hexDigits id).drop 20))) := by
  have hlast : ((hexDigits id).drop 20).take 12 = (hexDigits id).drop 20 := by
    refine List.take_of_length_le ?_
    rw [List.length_drop, length_hexDigits]
  rw [← hlast]
  simp [Uuid.hyphenated, hexDigits]

theorem filter_hyphenated (id : Uuid) :
    id.hyphenated.toList.filter (· ≠ '-') = hexDigits id := by
  have hkept : ∀ l, l ⊆ hexDigits id → l.filter (· ≠ '-') = l := fun l hl =>
    List.filter_eq_self.mpr fun c hc => decide_eq_true (hexDigits_ne_hyphen id c (hl hc))
  have hgroup : ∀ start len, (((hexDigits id).drop start).take len).filter (· ≠ '-') =
      ((hexDigits id).drop start).take len := fun start len =>
    hkept _ fun c hc => List.mem_of_mem_drop (List.mem_of_mem_take hc)
  have hjoin : ∀ start len, ((hexDigits id).drop start).take len ++ (hexDigits id).drop (start + len) =
      (hexDigits id).drop start := fun start len => by
    rw [← List.drop_drop, List.take_append_drop]
  rw [toList_hyphenated]
  simp only [List.filter_append, List.filter_cons, hgroup, hkept _ (List.take_subset _ _),
    hkept _ (List.drop_subset _ _), ne_eq, not_true_eq_false, decide_false, Bool.false_eq_true,
    if_false]
  rw [hjoin 16 4, hjoin 12 4, hjoin 8 4, List.take_append_drop]

theorem readDelivery_payload (id : Uuid) : readDelivery (payload id) = id.val := by
  have htext : ((payload id).toList.drop 16).take 36 = id.hyphenated.toList := by
    have hstart : payloadStart.toList.length = 16 := rfl
    rw [payload, String.toList_append, String.toList_append, List.append_assoc,
      List.drop_left' hstart, List.take_left' id.length_hyphenated]
  have hvalues : ((hexDigits id).map hexValue).reverse =
      (List.range 32).map fun i => id.val / 16 ^ i % 16 := by
    rw [hexDigits, List.map_map, List.map_reverse, List.reverse_reverse]
    exact List.map_congr_left fun i _ => hexValue_digitChar _ (Nat.mod_lt _ (by decide))
  have hbound : 16 ^ 32 = 2 ^ 128 := by norm_num
  rw [readDelivery, htext, filter_hyphenated, hvalues, ofDigits_range, hbound,
    Nat.mod_eq_of_lt id.isLt]

/-- The libraries, as far as the runs below use them. -/
def libraries : Libraries where
  payload
  deliveryId text := .ok (Fin.ofNat _ (readDelivery text))
  deliveryId_payload id := by
    rw [readDelivery_payload, Fin.ofNat_val_eq_self]
  allowInsecureHttp := none
  hostStr url := .ok (some (String.ofList ((url.toList.drop 8).takeWhile (· ≠ '/'))))
  eventType _ := none
  sqlMessage _ := "error returned from database"

/-- A subscription to created invoices. -/
def subscription : Subscription where
  id := 5
  ledgerId := 1
  targetUrl := "https://hooks.example.com/in"
  secret := "s"
  events := ["invoice.created"]

def event : Event := ⟨9, "invoice.created", "\x7b\x7d"⟩

def start : State where
  shared := { queue := { jobs := [], now := 0 }, subscriptions := [subscription] }
  place _ := .queue .idle

theorem start_fresh : Fresh start where
  queue := ⟨fun _ => rfl, rfl, List.nodup_nil, fun i r hr => (by cases hr), fun _ => rfl⟩
  idle _ := rfl
  others j hj := by cases hj
  deliveries := rfl
  calls := rfl
  failures := rfl

def announced : List (ℕ × Action) :=
  [(0, .emit 1 event), (0, .insertFirst 11), (0, .enqueue 21), (1, .queue (.claim 50 [])),
    (1, .queue (.start 0)), (1, .select)]

/-- The receiver answers 500, and the next attempt is enqueued. -/
def failing : List (ℕ × Action) :=
  announced ++ [(1, .post), (1, .answer (.ok 500)), (1, .record 3), (1, .insertNext 12),
    (1, .enqueue 22), (1, .finish), (1, .queue (.finalise false))]

/-- The next job is claimed, and a request is made. -/
def retrying : List (ℕ × Action) :=
  [(1, .queue (.claim 50 [])), (1, .queue (.start 0)), (1, .select), (1, .post)]

/-- The update behind the request fails. -/
def unrecorded : List (ℕ × Action) :=
  announced ++ [(1, .post), (1, .answer (.ok 200)), (1, .fail "connection closed"), (1, .finish),
    (1, .queue (.finalise false)), (1, .queue (.tick 30000000))]

end Sample

/-- The next attempt is made in the second of the failure, and after a lost update the same row is
posted again. -/
theorem not_onSchedule :
    Fresh Sample.start ∧
      ¬ OnSchedule (Runs.exec (step Sample.libraries) Sample.start
        (Sample.failing ++ Sample.retrying)).shared ∧
      ¬ OnSchedule (Runs.exec (step Sample.libraries) Sample.start
        (Sample.unrecorded ++ Sample.retrying)).shared := by
  refine ⟨Sample.start_fresh, fun h => ?_, fun h => ?_⟩
  · have hmem : (⟨⟨11, 5, 9, 0, 0⟩, 0⟩ : Failure) ∈ (Runs.exec (step Sample.libraries) Sample.start
          (Sample.failing ++ Sample.retrying)).shared.failures ∧
        (⟨⟨12, 5, 9, 1, 0⟩, 0, true⟩ : Call) ∈ (Runs.exec (step Sample.libraries) Sample.start
          (Sample.failing ++ Sample.retrying)).shared.calls := by
      decide
    have hspaced := h.spaced _ hmem.1 _ hmem.2 ⟨rfl, rfl, rfl⟩
    revert hspaced
    decide
  · have honce := h.once
    revert honce
    decide

theorem onSchedule_of_careful_retried :
    OnSchedule (Runs.exec (step Sample.libraries) Sample.start
      (Sample.failing ++ [(1, .queue (.tick 30000000))] ++ Sample.retrying)).shared :=
  onSchedule_of_careful Sample.start_fresh (by decide +kernel) _ (Runs.exec_mem_visited _ _)

end OpenAccounting.Webhooks
