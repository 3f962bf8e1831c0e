import OpenAccounting.System.WebhookQueue

/-!
# Rows and jobs of webhooks

What holds of the rows and the jobs whatever fails.  Every job of the kind concerns one row and no
row has two jobs.  A row without a job is known to one thread, which is going to enqueue it, or is
forgotten.
-/

namespace OpenAccounting.Webhooks

open Commit Relational
open Jobs (ClaimedJob Job)

/-- The job with the number `i` concerns the row. -/
def Concerns (lib : Libraries) (queue : Jobs.Shared) (i : ℕ) (delivery : Uuid) : Prop :=
  ∃ j, queue.inserted[i]? = some j ∧ j.kind = deliveryKind ∧ j.payload = lib.payload delivery

/-- What a thread in `deliver` knows. -/
def Place.Placed (lib : Libraries) (sh : Shared) : Place → Prop
  | .deliver job _ d _ stage => d.toAttempt ∈ sh.attempts ∧ job.kind = deliveryKind ∧
      job.payload = lib.payload d.id ∧ (stage = .failed → d.attempt + 1 < maxAttempts)
  | .returning job _ _ => job.kind = deliveryKind
  | _ => True

/-- The rows and the jobs fit together. -/
structure Registered (lib : Libraries) (s : State) : Prop where
  sound : Jobs.Sound (queueOf s)
  genuine : s.shared.queue.Genuine
  ids : (s.shared.attempts.map Attempt.id).Nodup
  keys : (s.shared.attempts.map Attempt.key).Nodup
  few : ∀ a ∈ s.shared.attempts, a.attempt < maxAttempts
  listed : ∀ j ∈ s.shared.queue.inserted, j.kind = deliveryKind →
    ∃ a ∈ s.shared.attempts, j.payload = lib.payload a.id
  one : ∀ i k d, Concerns lib s.shared.queue i d → Concerns lib s.shared.queue k d → i = k
  announced : ∀ m d, (s.place m).announced = some d →
    (∃ a ∈ s.shared.attempts, a.id = d) ∧ ∀ i, ¬ Concerns lib s.shared.queue i d
  announcer : ∀ m m' d, (s.place m).announced = some d → (s.place m').announced = some d → m = m'
  placed : ∀ m, (s.place m).Placed lib s.shared

variable {lib : Libraries} {s : State} {n : ℕ}

@[simp] theorem announced_fanOut (event : Event) (rest : List Uuid) :
    (Place.fanOut event rest).announced = none := by
  cases rest <;> rfl

@[simp] theorem queueing_fanOut (event : Event) (rest : List Uuid) :
    (Place.fanOut event rest).queueing = .idle := by
  cases rest <;> rfl

@[simp] theorem unfinished_fanOut (event : Event) (rest : List Uuid) :
    (Place.fanOut event rest).unfinished = [] := by
  cases rest <;> rfl

theorem placed_fanOut (lib : Libraries) (sh : Shared) (event : Event) (rest : List Uuid) :
    (Place.fanOut event rest).Placed lib sh := by
  cases rest <;> exact trivial

/-! ## The queue takes steps -/

theorem Acts.queueing {sh : Shared} {place : Place} {clean : Prop} {next : Shared × Place}
    (h : Acts lib n sh place clean next) :
    (next.1.queue, next.2.queueing) = (sh.queue, place.queueing) ∨
      ∃ a, (next.1.queue, next.2.queueing) = Jobs.act n sh.queue place.queueing a := by
  cases h with
  | quiet hqueue _ _ _ hmoves =>
    refine Or.inl (Prod.ext hqueue ?_)
    cases hmoves with
    | stay | select | giveUp | abort | answer | retry | settle => rfl
    | fanOut hidle event rest => exact (queueing_fanOut event rest).trans hidle.symm
  | queue hplace _ _ =>
    subst hplace
    exact Or.inr ⟨_, rfl⟩
  | crash =>
    refine Or.inr ⟨.crash, ?_⟩
    cases place.queueing <;> rfl
  | @finish job rest result hplace =>
    rcases hplace with rfl | ⟨rfl, d, target, rfl⟩
    · exact Or.inr ⟨.handle result, rfl⟩
    · exact Or.inr ⟨.handle (.ok ()), rfl⟩
  | insertFirst hplace _ _ hplace' =>
    refine Or.inl (Prod.ext rfl (Eq.trans ?_ hplace.symm))
    rcases hplace' with rfl | rfl
    · exact queueing_fanOut _ _
    · rfl
  | insertNext hplace _ _ _ _ | post hplace | refuse hplace _ | fail hplace _ =>
    subst hplace
    exact Or.inl rfl
  | @enqueue place' id delivery queue hplace henqueue =>
    have hact : ∀ p : Jobs.Place, (queue, p) = Jobs.act n sh.queue p
        (.enqueue id deliveryKind (lib.payload delivery) none none) := by
      intro p
      obtain ⟨⟨row, jobs⟩, hrow, hqueue⟩ := bind_eq_ok.mp henqueue
      cases hqueue
      simp only [Jobs.act, hrow]
    rcases hplace with ⟨event, rest, rfl, rfl⟩ | ⟨job, rest, d, target, rfl, rfl⟩
    · refine Or.inr ⟨_, Eq.trans ?_ (hact .idle)⟩
      rw [queueing_fanOut]
    · exact Or.inr ⟨_, hact _⟩

theorem queueOf_step {m : ℕ × Action} :
    queueOf (step lib s m) = queueOf s ∨
      ∃ a, queueOf (step lib s m) = Jobs.step (queueOf s) (m.1, a) := by
  obtain ⟨n, a⟩ := m
  have hplaces : (fun k => (Function.update s.place n (act lib n s.shared (s.place n) a).2 k).queueing) =
      Function.update (fun k => (s.place k).queueing) n
        (act lib n s.shared (s.place n) a).2.queueing :=
    funext fun k => Function.apply_update (fun _ => Place.queueing) s.place n _ k
  rcases (act_acts lib n s.shared (s.place n) a).queueing with h | ⟨a', h⟩
  · obtain ⟨hqueue, hplace⟩ := Prod.mk.inj h
    refine Or.inl ?_
    show Threads.State.mk _ (fun k => (Function.update s.place n _ k).queueing) = _
    rw [hplaces, hplace, Function.update_eq_self n fun k => (s.place k).queueing]
    exact congrArg (Threads.State.mk · _) hqueue
  · refine Or.inr ⟨a', ?_⟩
    show Threads.State.mk _ (fun k => (Function.update s.place n _ k).queueing) = _
    rw [hplaces]
    show _ = Threads.State.mk (Jobs.act n s.shared.queue (s.place n).queueing a').1
      (Function.update (fun k => (s.place k).queueing) n
        (Jobs.act n s.shared.queue (s.place n).queueing a').2)
    rw [← h]
    rfl

theorem Registered.sound_step (h : Registered lib s) (m : ℕ × Action) :
    Jobs.Sound (queueOf (step lib s m)) := by
  rcases @queueOf_step lib s m with hsame | ⟨a, hstep⟩
  · rw [hsame]
    exact h.sound
  · rw [hstep]
    exact Jobs.step_sound h.sound (m.1, a)

theorem Registered.genuine_step (h : Registered lib s) (m : ℕ × Action) :
    (step lib s m).shared.queue.Genuine := by
  rcases @queueOf_step lib s m with hsame | ⟨a, hstep⟩
  · have hqueue : (step lib s m).shared.queue = s.shared.queue :=
      congrArg Threads.State.shared hsame
    rw [hqueue]
    exact h.genuine
  · have hqueue : (step lib s m).shared.queue =
        (Jobs.act m.1 s.shared.queue ((s.place m.1).queueing) a).1 :=
      congrArg Threads.State.shared hstep
    rw [hqueue]
    exact h.genuine.act _ _ _

/-! ## The jobs -/

/-- No webhook is enqueued. -/
def Kept (queue queue' : Jobs.Shared) : Prop :=
  ∃ more, queue'.inserted = queue.inserted ++ more ∧ ∀ j ∈ more, j.kind ≠ deliveryKind

variable {queue queue' : Jobs.Shared} {place' : Place}

theorem Kept.of_eq (h : queue'.inserted = queue.inserted) : Kept queue queue' :=
  ⟨[], h.trans (List.append_nil _).symm, fun _ hj => nomatch hj⟩

theorem concerns_append {more : List Job} {i : ℕ} {d : Uuid}
    (hmore : queue'.inserted = queue.inserted ++ more) (h : Concerns lib queue i d) :
    Concerns lib queue' i d := by
  obtain ⟨j, hj, hsame⟩ := h
  refine ⟨j, ?_, hsame⟩
  rw [hmore, List.getElem?_append_left (List.getElem?_eq_some_iff.mp hj).1]
  exact hj

theorem Kept.concerns_iff (h : Kept queue queue') {i : ℕ} {d : Uuid} :
    Concerns lib queue' i d ↔ Concerns lib queue i d := by
  obtain ⟨more, hmore, hkind⟩ := h
  refine ⟨fun ⟨j, hj, hsame⟩ => ⟨j, ?_, hsame⟩, concerns_append hmore⟩
  rw [hmore] at hj
  rcases Nat.lt_or_ge i queue.inserted.length with hi | hi
  · rwa [List.getElem?_append_left hi] at hj
  · rw [List.getElem?_append_right hi] at hj
    exact absurd hsame.1 (hkind j (List.mem_of_getElem? hj))

theorem act_kept {p : Jobs.Place} {a : Jobs.Action}
    (hfree : ∀ id kind payload runAt createdBy, a = .enqueue id kind payload runAt createdBy →
      kind ≠ deliveryKind) : Kept queue (Jobs.act n queue p a).1 := by
  rcases Jobs.act_inserted n queue p a with h |
    ⟨id, kind, payload, runAt, createdBy, row, jobs, ha, henqueue, hact⟩
  · exact .of_eq h
  · refine ⟨[row], by rw [hact], fun j hj => ?_⟩
    rw [List.mem_singleton.mp hj]
    simp only [Jobs.enqueue, bind_eq_ok, ensure_eq_ok] at henqueue
    obtain ⟨-, -, henqueue⟩ := henqueue
    obtain ⟨rfl, -⟩ := Prod.mk.inj (Except.ok.inj henqueue)
    exact hfree id kind payload runAt createdBy ha

/-! ## The kinds of steps -/

theorem Place.Placed.mono {sh sh' : Shared} (hsub : sh.attempts ⊆ sh'.attempts) {place : Place}
    (h : place.Placed lib sh) : place.Placed lib sh' := by
  cases place with
  | deliver => exact ⟨hsub h.1, h.2⟩
  | returning => exact h
  | queue | emitting | announcing => exact trivial

theorem Registered.keep (h : Registered lib s) {sh' : Shared}
    (hsound : Jobs.Sound (queueOf ⟨sh', Function.update s.place n place'⟩))
    (hgenuine : sh'.queue.Genuine) (hkept : Kept s.shared.queue sh'.queue)
    (hattempts : sh'.attempts = s.shared.attempts)
    (hannounced : ∀ d, place'.announced = some d → (s.place n).announced = some d)
    (hplaced : place'.Placed lib sh') : Registered lib ⟨sh', Function.update s.place n place'⟩ := by
  have hold : ∀ m d, (Function.update s.place n place' m).announced = some d →
      (s.place m).announced = some d :=
    (Function.forall_update_iff s.place fun m place => ∀ d, place.announced = some d →
      (s.place m).announced = some d).mpr ⟨hannounced, fun _ _ _ hd => hd⟩
  refine ⟨hsound, hgenuine, hattempts ▸ h.ids, hattempts ▸ h.keys, hattempts ▸ h.few, ?_, ?_, ?_,
    fun m m' d hm hm' => h.announcer m m' d (hold m d hm) (hold m' d hm'), ?_⟩
  · intro j hj hkind
    obtain ⟨more, hmore, hmoreKind⟩ := hkept
    rw [hattempts]
    rw [hmore] at hj
    rcases List.mem_append.mp hj with hj | hj
    · exact h.listed j hj hkind
    · exact absurd hkind (hmoreKind j hj)
  · intro i k d hi hk
    exact h.one i k d (hkept.concerns_iff.mp hi) (hkept.concerns_iff.mp hk)
  · intro m d hm
    obtain ⟨hrow, hnone⟩ := h.announced m d (hold m d hm)
    refine ⟨hattempts ▸ hrow, fun i hi => hnone i (hkept.concerns_iff.mp hi)⟩
  · exact (Function.forall_update_iff s.place fun _ place => place.Placed lib sh').mpr
      ⟨hplaced, fun m _ => (h.placed m).mono fun a ha => hattempts.symm ▸ ha⟩

theorem attempts_concat (sh : Shared) (row : Delivery) :
    Shared.attempts { sh with deliveries := sh.deliveries ++ [row] } =
      sh.attempts ++ [row.toAttempt] :=
  List.map_append

/-- Only the thread that inserts a row announces it. -/
theorem Registered.addRow (h : Registered lib s) {row : Delivery} (hsound : Jobs.Sound (queueOf
      ⟨{ s.shared with deliveries := s.shared.deliveries ++ [row] }, Function.update s.place n place'⟩))
    (hnew : s.shared.New row) (hfew : row.attempt < maxAttempts)
    (hannounced : ∀ d, place'.announced = some d → d = row.id) (hplaced : place'.Placed lib
      { s.shared with deliveries := s.shared.deliveries ++ [row] }) :
    Registered lib
      ⟨{ s.shared with deliveries := s.shared.deliveries ++ [row] },
        Function.update s.place n place'⟩ := by
  have hattempts := attempts_concat s.shared row
  have hids : ∀ a ∈ s.shared.attempts, a.id ≠ row.id := by
    intro a ha
    obtain ⟨d, hd, rfl⟩ := List.mem_map.mp ha
    exact hnew.id d hd
  have hkeys : ∀ a ∈ s.shared.attempts, a.key ≠ row.toAttempt.key := by
    intro a ha
    obtain ⟨d, hd, rfl⟩ := List.mem_map.mp ha
    exact hnew.key d hd
  have hsub : s.shared.attempts ⊆ s.shared.attempts ++ [row.toAttempt] := List.subset_append_left _ _
  have hold : ∀ m d, (Function.update s.place n place' m).announced = some d →
      m = n ∧ d = row.id ∨ (s.place m).announced = some d :=
    (Function.forall_update_iff s.place fun m place => ∀ d, place.announced = some d →
      m = n ∧ d = row.id ∨ (s.place m).announced = some d).mpr
      ⟨fun d hd => Or.inl ⟨rfl, hannounced d hd⟩, fun _ _ _ hd => Or.inr hd⟩
  have hunknown : ∀ i, ¬ Concerns lib s.shared.queue i row.id := by
    rintro i ⟨j, hj, hkind, hpayload⟩
    obtain ⟨a, ha, hlisted⟩ := h.listed j (List.mem_of_getElem? hj) hkind
    exact hids a ha (Libraries.payload_inj (hlisted.symm.trans hpayload))
  have hforeign : ∀ m, (s.place m).announced ≠ some row.id := by
    intro m hm
    obtain ⟨⟨a, ha, hid⟩, -⟩ := h.announced m row.id hm
    exact hids a ha hid
  refine ⟨hsound, h.genuine, ?_, ?_, ?_, ?_, h.one, ?_, ?_, ?_⟩
  · rw [hattempts]
    exact nodup_map_concat.mpr ⟨h.ids, hids⟩
  · rw [hattempts]
    exact nodup_map_concat.mpr ⟨h.keys, hkeys⟩
  · rw [hattempts]
    intro a ha
    rcases List.mem_append.mp ha with ha | ha
    · exact h.few a ha
    · rw [List.mem_singleton.mp ha]
      exact hfew
  · intro j hj hkind
    obtain ⟨a, ha, hpayload⟩ := h.listed j hj hkind
    exact ⟨a, hattempts ▸ hsub ha, hpayload⟩
  · intro m d hm
    rw [hattempts]
    rcases hold m d hm with ⟨-, rfl⟩ | hm
    · exact ⟨⟨row.toAttempt, List.mem_append_right _ (List.mem_singleton_self _), rfl⟩, hunknown⟩
    · obtain ⟨⟨a, ha, hid⟩, hnone⟩ := h.announced m d hm
      exact ⟨⟨a, hsub ha, hid⟩, hnone⟩
  · intro m m' d hm hm'
    rcases hold m d hm with ⟨rfl, rfl⟩ | hm
    · rcases hold m' _ hm' with ⟨rfl, -⟩ | hm'
      · rfl
      · exact absurd hm' (hforeign m')
    · rcases hold m' d hm' with ⟨-, rfl⟩ | hm'
      · exact absurd hm (hforeign m)
      · exact h.announcer m m' d hm hm'
  · exact (Function.forall_update_iff s.place fun _ place => place.Placed lib _).mpr
      ⟨hplaced, fun m _ => (h.placed m).mono (hattempts ▸ hsub)⟩

/-- The job of an announced row is its only one. -/
theorem Registered.addJob (h : Registered lib s) {id d : Uuid}
    (hsound : Jobs.Sound (queueOf ⟨{ s.shared with queue }, Function.update s.place n place'⟩))
    (hgenuine : queue.Genuine) (henqueue : enqueueDelivery lib s.shared.queue id d = .ok queue)
    (hplace : (s.place n).announced = some d) (hannounced : place'.announced = none)
    (hplaced : place'.Placed lib s.shared) :
    Registered lib ⟨{ s.shared with queue }, Function.update s.place n place'⟩ := by
  obtain ⟨⟨a, ha, rfl⟩, hnone⟩ := h.announced n d hplace
  obtain ⟨row, hinserted, hkind, hpayload⟩ : ∃ row : Job,
      queue.inserted = s.shared.queue.inserted ++ [row] ∧ row.kind = deliveryKind ∧
        row.payload = lib.payload a.id := by
    rcases enqueueDelivery_cases lib s.shared.queue id a.id with ⟨j, hj, hid⟩ |
      ⟨row, -, hkind, hpayload, hok⟩
    · obtain ⟨⟨row, jobs⟩, hrow, -⟩ := bind_eq_ok.mp henqueue
      simp only [Jobs.enqueue, bind_eq_ok, ensure_eq_ok] at hrow
      exact absurd ⟨j, hj, hid⟩ hrow.choose_spec.1
    · obtain rfl := Except.ok.inj (hok.symm.trans henqueue)
      exact ⟨row, rfl, hkind, hpayload⟩
  have hold : ∀ m d', (Function.update s.place n place' m).announced = some d' →
      m ≠ n ∧ (s.place m).announced = some d' :=
    (Function.forall_update_iff s.place fun m place => ∀ d', place.announced = some d' →
      m ≠ n ∧ (s.place m).announced = some d').mpr
      ⟨fun d' hd' => (by rw [hannounced] at hd'; cases hd'), fun m hm d' hd' => ⟨hm, hd'⟩⟩
  -- The new job is the only one that concerns its row.
  have hconcerns : ∀ i d', Concerns lib queue i d' →
      i = s.shared.queue.inserted.length ∧ d' = a.id ∨ Concerns lib s.shared.queue i d' := by
    rintro i d' ⟨j, hj, hjkind, hjpayload⟩
    rw [hinserted] at hj
    rcases Nat.lt_or_ge i s.shared.queue.inserted.length with hi | hi
    · rw [List.getElem?_append_left hi] at hj
      exact Or.inr ⟨j, hj, hjkind, hjpayload⟩
    · rw [List.getElem?_append_right hi] at hj
      obtain ⟨hlt, rfl⟩ := List.getElem?_eq_some_iff.mp hj
      have hzero : i - s.shared.queue.inserted.length = 0 := by
        rw [List.length_singleton] at hlt
        omega
      simp only [hzero, List.getElem_cons_zero] at hjpayload
      exact Or.inl ⟨by omega, Libraries.payload_inj (hjpayload.symm.trans hpayload)⟩
  refine ⟨hsound, hgenuine, h.ids, h.keys, h.few, ?_, ?_, ?_,
    fun m m' d' hm hm' => h.announcer m m' d' (hold m d' hm).2 (hold m' d' hm').2, ?_⟩
  · intro j hj hjkind
    replace hj : j ∈ s.shared.queue.inserted ++ [row] := hinserted ▸ hj
    rcases List.mem_append.mp hj with hj | hj
    · exact h.listed j hj hjkind
    · rw [List.mem_singleton.mp hj]
      exact ⟨a, ha, hpayload⟩
  · intro i k d' hi hk
    rcases hconcerns i d' hi with ⟨rfl, rfl⟩ | hi
    · rcases hconcerns k _ hk with ⟨rfl, -⟩ | hk
      · rfl
      · exact absurd hk (hnone k)
    · rcases hconcerns k d' hk with ⟨-, rfl⟩ | hk
      · exact absurd hi (hnone i)
      · exact h.one i k d' hi hk
  · intro m d' hm
    obtain ⟨hne, hm⟩ := hold m d' hm
    obtain ⟨hrow, hothers⟩ := h.announced m d' hm
    refine ⟨hrow, fun i hi => ?_⟩
    rcases hconcerns i d' hi with ⟨-, rfl⟩ | hi
    · exact hne (h.announcer m n _ hm hplace)
    · exact hothers i hi
  · exact (Function.forall_update_iff s.place fun _ place => place.Placed lib _).mpr
      ⟨hplaced, fun m _ => h.placed m⟩

/-! ## Every step -/

theorem Registered.inserted (h : Registered lib s) (n : ℕ) :
    ∀ x ∈ ((s.place n).queueing).jobs, ∃ j, s.shared.queue.inserted[x.2.number]? = some j ∧
      j.kind = x.2.kind ∧ j.payload = x.2.payload := by
  intro x hx
  have hheld : x ∈ ((queueOf s).place n).jobs := hx
  obtain ⟨r, hr, hjob⟩ := h.sound.holds hheld
  obtain ⟨j, hj, hkind, hpayload⟩ := h.genuine r hr
  rw [hjob]
  exact ⟨j, hj, hkind, hpayload⟩

theorem Moves.announced {sh : Shared} {clean : Prop} {place : Place}
    (h : Moves lib sh clean place place') {d : Uuid} (hd : place'.announced = some d) :
    place.announced = some d := by
  cases h with
  | stay => exact hd
  | fanOut hidle event rest =>
    rw [announced_fanOut] at hd
    cases hd
  | select | giveUp | abort | answer | retry | settle => cases hd

theorem Registered.move (h : Registered lib s) {clean : Prop}
    (hmoves : Moves lib s.shared clean (s.place n) place') : place'.Placed lib s.shared := by
  have hplaced := h.placed n
  have hinserted := h.inserted n
  generalize s.place n = place at hmoves hplaced hinserted
  cases hmoves with
  | stay => exact hplaced
  | fanOut hidle event rest => exact placed_fanOut lib s.shared event rest
  | @select job rest d target hkind hread hd =>
    obtain ⟨j, hj, hjkind, hjpayload⟩ := hinserted _ List.mem_cons_self
    obtain ⟨a, -, hlisted⟩ := h.listed j (List.mem_of_getElem? hj) (hjkind.trans hkind)
    have hpayload : job.payload = lib.payload a.id := hjpayload.symm.trans hlisted
    have hid : a.id = d.id := by
      rw [hpayload, lib.deliveryId_payload] at hread
      exact Except.ok.inj hread
    exact ⟨hd, hkind, hid ▸ hpayload, fun hfailed => nomatch hfailed⟩
  | giveUp hkind result => exact hkind
  | abort hclean result => exact hplaced.2.1
  | answer outcome => exact ⟨hplaced.1, hplaced.2.1, hplaced.2.2.1, fun hfailed => nomatch hfailed⟩
  | retry hnext => exact ⟨hplaced.1, hplaced.2.1, hplaced.2.2.1, fun _ => hnext⟩
  | settle => exact ⟨hplaced.1, hplaced.2.1, hplaced.2.2.1, fun hfailed => nomatch hfailed⟩

/-- The invariant, for one step. -/
theorem Registered.step (h : Registered lib s) (m : ℕ × Action) : Registered lib (step lib s m) := by
  obtain ⟨n, a⟩ := m
  have hacts := act_acts lib n s.shared (s.place n) a
  have hsound : Jobs.Sound (queueOf ⟨(act lib n s.shared (s.place n) a).1,
    Function.update s.place n (act lib n s.shared (s.place n) a).2⟩) := h.sound_step (n, a)
  have hgenuine : (act lib n s.shared (s.place n) a).1.queue.Genuine := h.genuine_step (n, a)
  show Registered lib ⟨(act lib n s.shared (s.place n) a).1,
    Function.update s.place n (act lib n s.shared (s.place n) a).2⟩
  have hplaced := h.placed n
  generalize act lib n s.shared (s.place n) a = next at hacts hsound hgenuine
  cases hacts with
  | quiet hqueue hattempts hcalls hfailures hmoves =>
    exact h.keep hsound hgenuine (.of_eq (by rw [hqueue])) hattempts (fun d => hmoves.announced)
      ((h.move hmoves).mono fun a ha => hattempts.symm ▸ ha)
  | @queue p a hplace hfree hripe =>
    refine h.keep hsound hgenuine (act_kept ?_) rfl (fun d hd => nomatch hd) trivial
    rintro id kind payload runAt createdBy rfl rfl
    refine hfree ?_
    cases p <;> rfl
  | crash => exact h.keep hsound hgenuine (.of_eq rfl) rfl (fun d hd => nomatch hd) trivial
  | finish hplace =>
    exact h.keep hsound hgenuine (act_kept fun _ _ _ _ _ ha => nomatch ha) rfl
      (fun d hd => nomatch hd) trivial
  | insertFirst hplace hnew hattempt hplace' =>
    have hfew : _ < maxAttempts := hattempt.trans_lt (by decide)
    rcases hplace' with rfl | rfl
    · refine h.addRow hsound hnew hfew (fun d hd => ?_) (placed_fanOut lib _ _ _)
      rw [announced_fanOut] at hd
      cases hd
    · exact h.addRow hsound hnew hfew (fun d hd => (Option.some.inj hd).symm) trivial
  | @insertNext job rest d d' row target next hplace hd' hid hnew hrow =>
    rw [hplace] at hplaced
    have hfew : row.attempt < maxAttempts :=
      (congrArg Attempt.attempt hrow).trans_lt (hplaced.2.2.2 rfl)
    have hannounced : ∀ e, (Place.deliver job rest d target (.inserted next)).announced = some e →
        e = row.id := fun e he =>
      (Option.some.inj he).symm.trans (congrArg Attempt.id hrow).symm
    refine h.addRow hsound hnew hfew hannounced
      ⟨?_, hplaced.2.1, hplaced.2.2.1, fun hfailed => nomatch hfailed⟩
    rw [attempts_concat]
    exact List.mem_append_left _ hplaced.1
  | enqueue hplace henqueue =>
    rcases hplace with ⟨event, rest, hplace, rfl⟩ | ⟨job, rest, d, target, hplace, rfl⟩
    · exact h.addJob hsound hgenuine henqueue (by rw [hplace]; rfl) (announced_fanOut event rest)
        (placed_fanOut lib _ event rest)
    · rw [hplace] at hplaced
      exact h.addJob hsound hgenuine henqueue (by rw [hplace]; rfl) rfl
        ⟨hplaced.1, hplaced.2.1, hplaced.2.2.1, fun hfailed => nomatch hfailed⟩
  | post hplace | refuse hplace _ | fail hplace _ =>
    rw [hplace] at hplaced
    exact h.keep hsound hgenuine (.of_eq rfl) rfl (fun d hd => nomatch hd)
      ⟨hplaced.1, hplaced.2.1, hplaced.2.2.1, fun hfailed => nomatch hfailed⟩

/-! ## The one who delivers -/

theorem Registered.concerns (h : Registered lib s) {job : ClaimedJob} {rest : List ClaimedJob}
    {d : Delivery} {target : Subscription} {stage : Stage}
    (hplace : s.place n = .deliver job rest d target stage) :
    Concerns lib s.shared.queue job.number d.id := by
  have hplaced := h.placed n
  have hinserted := h.inserted n
  rw [hplace] at hplaced hinserted
  obtain ⟨j, hj, hkind, hpayload⟩ := hinserted _ List.mem_cons_self
  exact ⟨j, hj, hkind.trans hplaced.2.1, hpayload.trans hplaced.2.2.1⟩

theorem Registered.deliverer (h : Registered lib s) {n' : ℕ} {job job' : ClaimedJob}
    {rest rest' : List ClaimedJob} {d d' : Delivery} {target target' : Subscription}
    {stage stage' : Stage} (hplace : s.place n = .deliver job rest d target stage)
    (hplace' : s.place n' = .deliver job' rest' d' target' stage') (hid : d.id = d'.id) :
    n = n' := by
  have hnumber : job.number = job'.number :=
    h.one _ _ d.id (h.concerns hplace) (hid ▸ h.concerns hplace')
  refine h.sound.exclusive n n' job ?_ job' ?_ hnumber
  · show job ∈ ((s.place n).queueing).current
    rw [hplace]
    rfl
  · show job' ∈ ((s.place n').queueing).current
    rw [hplace']
    rfl

end OpenAccounting.Webhooks
