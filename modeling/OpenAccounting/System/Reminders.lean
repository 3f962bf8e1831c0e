import OpenAccounting.Jobs.InvoiceReminders
import OpenAccounting.System.JournalOps

/-!
# Each reminder is delivered once

Any number of scans are under way, and each may fail or be killed at any statement.  An offset of
an invoice is delivered at most once on each channel, and only if a scan has found that the invoice
has reached it.  A scan that comes to its end leaves a row for every offset it has found.
-/

namespace OpenAccounting.InvoiceReminders

open Calendar

variable {display : ℚ → String}

def Channel.rank : Channel → ℕ
  | .email => 0
  | .inApp => 1
  | .event => 2

def Delivery.key (x : Delivery) : (Uuid × ℤ) × Channel := (x.due.key, x.message.channel)

variable {channel : Channel} {d : Due} {all rest : List Due}

theorem message_channel {configured : Bool} {reading : Reading} {m : Message}
    (h : message display configured reading d channel = some m) :
    m.channel = channel := by
  cases channel with
  | email =>
    simp only [message] at h
    split at h
    · cases h
      rfl
    · cases h
  | inApp | event =>
    cases h
    rfl

/-- The scan has found `all`, and whatever is not left has a row. -/
structure Through (all left : List Due) (sh : Shared) : Prop where
  scanned : ∃ p ∈ sh.scanned, all = dueOffsets p.1 p.2
  sub : left ⊆ all
  done : ∀ d ∈ all, d ∈ left ∨ d.key ∈ sh.reminders

/-- What a scan knows. -/
def Asserts (n : ℕ) : Place → Shared → Prop
  | .idle, _ => True
  | .firing all rest, sh => Through all rest sh
  | .claiming all _ d rest, sh => Through all (d :: rest) sh
  | .delivering all _ d rest channel, sh =>
    Through all rest sh ∧ d ∈ all ∧ (n, d.key) ∈ sh.claims ∧
      ∀ x ∈ sh.delivered, x.due.key = d.key → x.message.channel.rank < channel.rank

/-- Each key is claimed by one scan, and is delivered once on each channel. -/
structure Sound (before : List (Uuid × ℤ)) (sh : Shared) : Prop where
  nodup : (sh.delivered.map Delivery.key).Nodup
  claimed : ∀ x ∈ sh.delivered, ∃ n, (n, x.due.key) ∈ sh.claims
  unique : ∀ n m key, (n, key) ∈ sh.claims → (m, key) ∈ sh.claims → n = m
  rows : ∀ c ∈ sh.claims, c.2 ∈ sh.reminders
  fresh : ∀ c ∈ sh.claims, c.2 ∉ before
  kept : before ⊆ sh.reminders
  found : ∀ x ∈ sh.delivered, ∃ p ∈ sh.scanned, x.due ∈ dueOffsets p.1 p.2

/-- What an action does to the tables: it adds rows, and delivers what its scan has claimed. -/
structure Adds (n : ℕ) (sh sh' : Shared) : Prop where
  reminders : sh.reminders ⊆ sh'.reminders
  claims : sh.claims ⊆ sh'.claims
  scanned : sh.scanned ⊆ sh'.scanned
  delivered : ∀ x ∈ sh'.delivered, x ∈ sh.delivered ∨ (n, x.due.key) ∈ sh.claims

theorem Adds.refl (n : ℕ) (sh : Shared) : Adds n sh sh :=
  ⟨List.Subset.refl _, List.Subset.refl _, List.Subset.refl _, fun _ => Or.inl⟩

theorem Through.mono {n : ℕ} {sh sh' : Shared} (hadds : Adds n sh sh') {left : List Due}
    (h : Through all left sh) : Through all left sh' where
  scanned := by
    obtain ⟨p, hp, hall⟩ := h.scanned
    exact ⟨p, hadds.scanned hp, hall⟩
  sub := h.sub
  done := fun d hd => (h.done d hd).imp id fun hkey => hadds.reminders hkey

/-- Other scans deliver other keys. -/
theorem Asserts.mono {before : List (Uuid × ℤ)} {n m : ℕ} {sh sh' : Shared}
    (hsound : Sound before sh) (hadds : Adds n sh sh') (hne : m ≠ n) {place : Place}
    (h : Asserts m place sh) : Asserts m place sh' := by
  cases place with
  | idle => trivial
  | firing | claiming => exact Through.mono hadds h
  | delivering =>
    obtain ⟨hthrough, hd, hclaim, hrank⟩ := h
    refine ⟨hthrough.mono hadds, hd, hadds.claims hclaim, fun x hx hkey => ?_⟩
    rcases hadds.delivered x hx with hx | hx
    · exact hrank x hx hkey
    · rw [hkey] at hx
      exact absurd (hsound.unique _ _ _ hclaim hx) hne

/-- What an action has to keep. -/
structure Keeps (before : List (Uuid × ℤ)) (n : ℕ) (sh : Shared) (next : Shared × Place) :
    Prop where
  adds : Adds n sh next.1
  sound : Sound before next.1
  asserts : Asserts n next.2 next.1

variable {before : List (Uuid × ℤ)} {n : ℕ} {sh : Shared}

theorem Sound.stays (h : Sound before sh) {place : Place} (hplace : Asserts n place sh) :
    Keeps before n sh (sh, place) :=
  ⟨.refl n sh, h, hplace⟩

theorem Sound.scan (h : Sound before sh) (invoices : List Invoice) (today : NaiveDate) :
    Keeps before n sh ({ sh with scanned := sh.scanned ++ [(invoices, today)] },
      .firing (dueOffsets invoices today) (dueOffsets invoices today)) where
  adds := ⟨List.Subset.refl _, List.Subset.refl _, List.subset_append_left _ _, fun _ => Or.inl⟩
  sound := { h with
    found := fun x hx => by
      obtain ⟨p, hp, hdue⟩ := h.found x hx
      exact ⟨p, List.mem_append_left _ hp, hdue⟩ }
  asserts := ⟨⟨_, List.mem_append_right _ (List.mem_singleton_self _), rfl⟩,
    List.Subset.refl _, fun _ => Or.inl⟩

theorem Through.tail (h : Through all (d :: rest) sh) (hkey : d.key ∈ sh.reminders) :
    Through all rest sh where
  scanned := h.scanned
  sub := List.Subset.trans (List.subset_cons_self _ _) h.sub
  done := fun e he => by
    rcases h.done e he with hleft | hdone
    · rcases List.mem_cons.mp hleft with rfl | hleft
      · exact Or.inr hkey
      · exact Or.inl hleft
    · exact Or.inr hdone

/-- The row is new, so nobody has claimed or delivered the key. -/
theorem Sound.claim (h : Sound before sh) (reading : Reading)
    (hplace : Through all (d :: rest) sh) (hnew : d.key ∉ sh.reminders) :
    Keeps before n sh ({ sh with
      reminders := sh.reminders ++ [d.key], claims := sh.claims ++ [(n, d.key)] },
        .delivering all reading d rest .email) := by
  have hunclaimed : ∀ m, (m, d.key) ∉ sh.claims := fun m hm => hnew (h.rows _ hm)
  have hadds : Adds n sh { sh with
      reminders := sh.reminders ++ [d.key], claims := sh.claims ++ [(n, d.key)] } :=
    ⟨List.subset_append_left _ _, List.subset_append_left _ _, List.Subset.refl _,
      fun _ => Or.inl⟩
  have hlast : d.key ∈ sh.reminders ++ [d.key] :=
    List.mem_append_right _ (List.mem_singleton_self _)
  refine ⟨hadds, ⟨h.nodup, fun x hx => ?_, fun m m' key hm hm' => ?_, fun c hc => ?_,
    fun c hc => ?_, List.Subset.trans h.kept hadds.reminders, h.found⟩,
    (hplace.mono hadds).tail hlast, hplace.sub List.mem_cons_self,
    List.mem_append_right _ (List.mem_singleton_self _), fun x hx hkey => ?_⟩
  · obtain ⟨m, hm⟩ := h.claimed x hx
    exact ⟨m, hadds.claims hm⟩
  · rcases List.mem_append.mp hm with hm | hm <;> rcases List.mem_append.mp hm' with hm' | hm'
    · exact h.unique m m' key hm hm'
    · cases List.mem_singleton.mp hm'
      exact absurd hm (hunclaimed m)
    · cases List.mem_singleton.mp hm
      exact absurd hm' (hunclaimed m')
    · cases List.mem_singleton.mp hm
      cases List.mem_singleton.mp hm'
      rfl
  · rcases List.mem_append.mp hc with hc | hc
    · exact hadds.reminders (h.rows c hc)
    · cases List.mem_singleton.mp hc
      exact hlast
  · rcases List.mem_append.mp hc with hc | hc
    · exact h.fresh c hc
    · cases List.mem_singleton.mp hc
      exact fun hbefore => hnew (h.kept hbefore)
  · obtain ⟨m, hm⟩ := h.claimed x hx
    rw [hkey] at hm
    exact absurd hm (hunclaimed m)

/-- The scan goes on to a later channel. -/
theorem asserts_next {reading : Reading} (hthrough : Through all rest sh) (hd : d ∈ all)
    (hclaim : (n, d.key) ∈ sh.claims)
    (hrank : ∀ x ∈ sh.delivered, x.due.key = d.key → x.message.channel.rank ≤ channel.rank) :
    Asserts n (.next all reading d rest channel) sh := by
  cases channel with
  | event => exact hthrough
  | email => exact ⟨hthrough, hd, hclaim, fun x hx hkey => Nat.lt_succ_of_le (hrank x hx hkey)⟩
  | inApp => exact ⟨hthrough, hd, hclaim, fun x hx hkey => Nat.lt_succ_of_le (hrank x hx hkey)⟩

/-- A delivery on the next channel is the first one of its key. -/
theorem Sound.deliver (h : Sound before sh) {reading : Reading}
    (hplace : Asserts n (.delivering all reading d rest channel) sh) {m : Message}
    (hchannel : m.channel = channel) :
    Keeps before n sh ({ sh with delivered := sh.delivered ++ [⟨d, m⟩] },
      .next all reading d rest channel) := by
  obtain ⟨hthrough, hd, hclaim, hrank⟩ := hplace
  have hadds : Adds n sh { sh with delivered := sh.delivered ++ [⟨d, m⟩] } := by
    refine ⟨List.Subset.refl _, List.Subset.refl _, List.Subset.refl _, fun x hx => ?_⟩
    rcases List.mem_append.mp hx with hx | hx
    · exact Or.inl hx
    · cases List.mem_singleton.mp hx
      exact Or.inr hclaim
  refine ⟨hadds, { h with nodup := ?_, claimed := fun x hx => ?_, found := fun x hx => ?_ },
    asserts_next (hthrough.mono hadds) hd hclaim fun x hx hkey => ?_⟩
  · refine Relational.nodup_map_concat.mpr ⟨h.nodup, fun x hx heq => ?_⟩
    obtain ⟨hkey, hsame⟩ := Prod.ext_iff.mp heq
    have hlt := hrank x hx hkey
    rw [show x.message.channel = channel from hsame.trans hchannel] at hlt
    exact lt_irrefl _ hlt
  · rcases hadds.delivered x hx with hx | hx
    · exact h.claimed x hx
    · exact ⟨n, hx⟩
  · rcases List.mem_append.mp hx with hx | hx
    · exact h.found x hx
    · cases List.mem_singleton.mp hx
      obtain ⟨p, hp, rfl⟩ := hthrough.scanned
      exact ⟨p, hp, hd⟩
  · rcases List.mem_append.mp hx with hx | hx
    · exact (hrank x hx hkey).le
    · cases List.mem_singleton.mp hx
      rw [hchannel]

/-- One statement. -/
theorem Sound.act (h : Sound before sh) {place : Place} (hplace : Asserts n place sh)
    (a : Action) : Keeps before n sh (act display n sh place a) := by
  unfold InvoiceReminders.act
  split
  · exact h.scan _ _
  · exact h.stays hplace
  · split
    · rename_i hrow
      exact h.stays (hplace.tail hrow)
    · rename_i hnew
      exact h.claim _ hplace hnew
  · have hrank := fun x hx hkey => (hplace.2.2.2 x hx hkey).le
    split
    · exact h.stays (asserts_next hplace.1 hplace.2.1 hplace.2.2.1 hrank)
    · rename_i hmessage
      split
      · exact h.deliver hplace (message_channel hmessage)
      · split
        · exact h.stays trivial
        · exact h.stays (asserts_next hplace.1 hplace.2.1 hplace.2.2.1 hrank)
  · exact h.stays trivial
  · exact h.stays hplace

theorem outline : Threads.Outline (InvoiceReminders.act display) (fun _ _ => True) (Sound before)
    Asserts where
  sequential := fun hs _ =>
    ⟨(hs.inv.act (hs.places _) _).sound, (hs.inv.act (hs.places _) _).asserts⟩
  stable := fun hs _ hne => (hs.places _).mono hs.inv (hs.inv.act (hs.places _) _).adds hne

/-- No scan has begun. -/
def start (before : List (Uuid × ℤ)) : State := ⟨{ reminders := before }, fun _ => .idle⟩

theorem holds_start (before : List (Uuid × ℤ)) :
    Threads.Holds (Sound before) Asserts (start before) :=
  ⟨⟨List.nodup_nil, nofun, nofun, nofun, nofun, List.Subset.refl _, nofun⟩, fun _ => trivial⟩

/-- In every interleaving an offset of an invoice is delivered at most once on each channel, not at
all if it had a row before, and only if a scan has found the open receivable past due by so many
days. -/
theorem delivered_once (display : ℚ → String) (before : List (Uuid × ℤ))
    (actions : List (ℕ × Action)) :
    ∀ s ∈ Runs.visited (step display) (start before) actions,
      (s.shared.delivered.map Delivery.key).Nodup ∧
        ∀ x ∈ s.shared.delivered, x.due.key ∉ before ∧
          ∃ p ∈ s.shared.scanned, ∃ i ∈ p.1, i.id = x.due.invoice ∧
            (i.kind = .receivable ∧ (i.status = .opened ∨ i.status = .overdue) ∧
              i.dueDate < p.2) ∧
            x.due.offset ∈ reminderOffsets ∧
              x.due.offset ≤ p.2.dayNumber - i.dueDate.dayNumber := by
  intro s hs
  have hsound := (outline.holds (holds_start before) (Runs.meets_of_forall fun _ _ => trivial) s
    hs).inv
  refine ⟨hsound.nodup, fun x hx => ⟨?_, ?_⟩⟩
  · obtain ⟨n, hclaim⟩ := hsound.claimed x hx
    exact hsound.fresh _ hclaim
  · obtain ⟨p, hp, hdue⟩ := hsound.found x hx
    obtain ⟨i, hi, hopen, offset, hoffset, hreached, heq⟩ := mem_dueOffsets.mp hdue
    rw [heq]
    exact ⟨p, hp, i, hi, rfl, hopen, hoffset, hreached⟩

/-- A scan that has nothing left has left a row for every offset it has found. -/
theorem finished_scan_leaves_rows (display : ℚ → String) (before : List (Uuid × ℤ))
    (actions : List (ℕ × Action)) :
    ∀ s ∈ Runs.visited (step display) (start before) actions, ∀ n all,
      s.place n = .firing all [] → (∃ p ∈ s.shared.scanned, all = dueOffsets p.1 p.2) ∧
        ∀ d ∈ all, d.key ∈ s.shared.reminders := by
  intro s hs n all hplace
  have hasserts := (outline.holds (holds_start before) (Runs.meets_of_forall fun _ _ => trivial) s
    hs).places n
  rw [hplace] at hasserts
  exact ⟨hasserts.scanned, fun d hd => (hasserts.done d hd).resolve_left List.not_mem_nil⟩

namespace Sample

open OpenAccounting.Sample

/-- An invoice that is nine days past due on 10 March. -/
def late : Invoice where
  id := 41
  ledgerId := ledgerId
  contactId := 31
  kind := .receivable
  invoiceDate := march 1
  dueDate := march 1
  total := 50

def reading : Reading where
  owner := owner
  contactEmail := "ada@example.org"
  invoiceNumber := none
  total := 50

/-- Two scans find the invoice, and the second one comes too late for both offsets. -/
def overlapping : List (ℕ × Action) :=
  [(0, .scan [late] (march 10)), (1, .scan [late] (march 10)), (0, .read reading),
    (1, .read reading), (0, .claim), (1, .claim), (0, .deliver true true), (0, .deliver true true),
    (0, .deliver true true), (0, .read reading), (1, .read reading), (0, .claim), (1, .claim)]

def overlapped : State := Runs.exec (step fun _ => "50") (start []) overlapping

end Sample

open InvoiceReminders.Sample in
theorem delivered_once_overlapped : overlapped.shared.delivered.length = 3 ∧
    (overlapped.shared.delivered.map Delivery.key).Nodup :=
  ⟨by decide +kernel, (delivered_once _ [] overlapping _ (Runs.exec_mem_visited _ _)).1⟩

open InvoiceReminders.Sample OpenAccounting.Sample in
theorem finished_scan_leaves_rows_overlapped :
    overlapped.place 1 = .firing (dueOffsets [late] (march 10)) [] ∧
      ∀ d ∈ dueOffsets [late] (march 10), d.key ∈ overlapped.shared.reminders :=
  have hplace : overlapped.place 1 = .firing (dueOffsets [late] (march 10)) [] := rfl
  ⟨hplace, (finished_scan_leaves_rows _ [] overlapping _ (Runs.exec_mem_visited _ _) 1 _ hplace).2⟩

end OpenAccounting.InvoiceReminders
