import Mathlib.Data.List.Forall2
import Mathlib.Data.List.Nodup
import OpenAccounting.Auth.ApiToken
import OpenAccounting.Lib.Relational
import OpenAccounting.Lib.Runs

/-!
# Who a bearer token stands for

Tokens are issued, presented and revoked in any order.  In every state of a run a header is taken
for a user and a token exactly if it presents the secret of this token, which was issued to the
user, and the user has not revoked it.
-/

namespace OpenAccounting.ApiTokens

open RustStr

variable {argon2 : Argon2}

/-! ## Runs -/

/-- A token as its user knows it. -/
structure Issued where
  id : Uuid
  user : Uuid
  secret : String
deriving DecidableEq

def Issued.plaintext (t : Issued) : String := tokenPrefix ++ t.secret

/-- The table, the tokens that were issued, and the ids of those that were revoked. -/
structure State where
  rows : List ApiTokenRow := []
  issued : List Issued := []
  revoked : List Uuid := []

inductive Action where
  | issue (user : Uuid) (name : String) (draw : Draw)
  | verify (header : String) (now : ℤ)
  | revoke (token user : Uuid) (now : ℤ)

def step (argon2 : Argon2) (s : State) : Action → State
  | .issue user name draw =>
    match issueToken argon2 s.rows user name draw with
    | none => s
    | some (_, rows) => { s with rows, issued := s.issued ++ [⟨draw.id, user, draw.secret⟩] }
  | .verify header now => { s with rows := (verifyToken argon2 s.rows header now).2 }
  | .revoke token user now =>
    let (found, rows) := revokeToken s.rows token user now
    { s with rows, revoked := if found then token :: s.revoked else s.revoked }

/-! ## What the table says of the tokens -/

structure RowOf (argon2 : Argon2) (revoked : List Uuid) (r : ApiTokenRow) (t : Issued) : Prop where
  id : r.id = t.id
  user : r.userId = t.user
  found : r.tokenPrefix = lookup t.secret
  hashed : ∃ salt, argon2.hashSecret salt t.secret = some r.tokenHash
  drawn : ∃ draw : Draw, t.secret = draw.secret
  revoked : r.revokedAt.isSome ↔ t.id ∈ revoked

structure Recorded (argon2 : Argon2) (s : State) : Prop where
  ids : (s.rows.map ApiTokenRow.id).Nodup
  prefixes : (s.rows.map ApiTokenRow.tokenPrefix).Nodup
  rows : List.Forall₂ (RowOf argon2 s.revoked) s.rows s.issued
  known : ∀ id ∈ s.revoked, ∃ r ∈ s.rows, r.id = id

theorem recorded_start : Recorded argon2 {} where
  ids := List.nodup_nil
  prefixes := List.nodup_nil
  rows := .nil
  known := nofun

variable {s : State}

/-- The rows may change in what `RowOf` does not say. -/
theorem Recorded.map (h : Recorded argon2 s) {f : ApiTokenRow → ApiTokenRow} {revoked : List Uuid}
    (hid : ∀ r, (f r).id = r.id) (hfront : ∀ r, (f r).tokenPrefix = r.tokenPrefix)
    (hrow : ∀ r ∈ s.rows, ∀ t, RowOf argon2 s.revoked r t → RowOf argon2 revoked (f r) t)
    (hknown : ∀ id ∈ revoked, ∃ r ∈ s.rows, r.id = id) :
    Recorded argon2 { s with rows := s.rows.map f, revoked } where
  ids := by
    rw [List.map_map, show ApiTokenRow.id ∘ f = ApiTokenRow.id from funext hid]
    exact h.ids
  prefixes := by
    rw [List.map_map, show ApiTokenRow.tokenPrefix ∘ f = ApiTokenRow.tokenPrefix from
      funext hfront]
    exact h.prefixes
  rows := by
    have hmem : List.Forall₂ (fun r t => r ∈ s.rows ∧ RowOf argon2 s.revoked r t) s.rows
        s.issued := (List.forall₂_and_left _ _).mpr ⟨fun _ hr => hr, h.rows⟩
    exact List.forall₂_map_left_iff.mpr (hmem.imp fun r t ht => hrow r ht.1 t ht.2)
  known := by
    intro id hid'
    obtain ⟨r, hr, rfl⟩ := hknown id hid'
    exact ⟨f r, List.mem_map_of_mem hr, hid r⟩

theorem Recorded.verify (h : Recorded argon2 s) (header : String) (now : ℤ) :
    Recorded argon2 { s with rows := (verifyToken argon2 s.rows header now).2 } := by
  unfold verifyToken
  split
  · exact h
  · split
    · exact h
    · split
      · exact h
      · split
        · exact h
        · refine h.map (fun r => ?_) (fun r => ?_) (fun r _ t ht => ?_) h.known
          · split <;> rfl
          · split <;> rfl
          · split
            · exact ⟨ht.id, ht.user, ht.found, ht.hashed, ht.drawn, ht.revoked⟩
            · exact ht

/-- A revocation keeps the rows those of the issued tokens. -/
theorem Recorded.revoke (h : Recorded argon2 s) (token user : Uuid) (now : ℤ) :
    Recorded argon2 (step argon2 s (.revoke token user now)) := by
  have hfound : (s.rows.any fun r => r.id = token ∧ r.userId = user) = true ↔
      ∃ r ∈ s.rows, r.id = token ∧ r.userId = user := by
    simp [List.any_eq_true]
  refine h.map (fun r => ?_) (fun r => ?_) (fun r hr t ht => ?_) fun id hid => ?_
  · split <;> rfl
  · split <;> rfl
  · by_cases hhit : r.id = token ∧ r.userId = user
    · simp only [if_pos hhit]
      refine ⟨ht.id, ht.user, ht.found, ht.hashed, ht.drawn, iff_of_true rfl ?_⟩
      rw [if_pos (hfound.mpr ⟨r, hr, hhit⟩), ← ht.id, hhit.1]
      exact List.mem_cons_self
    · simp only [if_neg hhit]
      refine ⟨ht.id, ht.user, ht.found, ht.hashed, ht.drawn, ht.revoked.trans ?_⟩
      split
      · rename_i hsome
        obtain ⟨r', hr', hid', huser'⟩ := hfound.mp hsome
        have hne : t.id ≠ token := by
          rintro rfl
          have heq := List.inj_on_of_nodup_map h.ids hr hr' (ht.id.trans hid'.symm)
          exact hhit ⟨ht.id, heq ▸ huser'⟩
        simp [hne]
      · rfl
  · split at hid
    · rename_i hsome
      rcases List.mem_cons.mp hid with rfl | hid
      · obtain ⟨r, hr, hhit⟩ := hfound.mp hsome
        exact ⟨r, hr, hhit.1⟩
      · exact h.known id hid
    · exact h.known id hid

theorem Recorded.issue (h : Recorded argon2 s) (user : Uuid) (name : String) (draw : Draw) :
    Recorded argon2 (step argon2 s (.issue user name draw)) := by
  rw [step, issueToken]
  cases hhash : argon2.hashSecret draw.salt draw.secret with
  | none => exact h
  | some hash =>
    by_cases hmet : ∃ r ∈ s.rows, r.id = draw.id ∨ r.tokenPrefix = lookup draw.secret
    · simp only [if_pos hmet]
      exact h
    · simp only [if_neg hmet]
      simp only [not_exists, not_and, not_or] at hmet
      refine ⟨Relational.nodup_map_concat.mpr ⟨h.ids, fun r hr => (hmet r hr).1⟩,
        Relational.nodup_map_concat.mpr ⟨h.prefixes, fun r hr => (hmet r hr).2⟩,
        List.rel_append h.rows (.cons ⟨rfl, rfl, rfl, ⟨_, hhash⟩, ⟨draw, rfl⟩, ?_⟩ .nil),
        fun id hid => ?_⟩
      · refine iff_of_false (by simp) fun hid => ?_
        obtain ⟨r, hr, hid⟩ := h.known _ hid
        exact (hmet r hr).1 hid
      · obtain ⟨r, hr, hid⟩ := h.known id hid
        exact ⟨r, List.mem_append_left _ hr, hid⟩

theorem Recorded.step (h : Recorded argon2 s) (a : Action) : Recorded argon2 (step argon2 s a) := by
  cases a with
  | issue user name draw => exact h.issue user name draw
  | verify header now => exact h.verify header now
  | revoke token user now => exact h.revoke token user now

theorem exists_of_forall₂ {α β : Type*} {R : α → β → Prop} {xs : List α} {ys : List β}
    (h : List.Forall₂ R xs ys) {x : α} (hx : x ∈ xs) : ∃ y ∈ ys, R x y := by
  induction h with
  | nil => cases hx
  | cons hhead _ ih =>
    rcases List.mem_cons.mp hx with rfl | hx
    · exact ⟨_, List.mem_cons_self, hhead⟩
    · obtain ⟨y, hy, hxy⟩ := ih hx
      exact ⟨y, List.mem_cons_of_mem _ hy, hxy⟩

/-! ## Who is verified -/

/-- What is presented is verified as the token whose secret it is, unless that is revoked. -/
theorem Recorded.verifyToken_eq_some (h : Recorded argon2 s) (hlaw : argon2.Lawful)
    {header : String} {now : ℤ} {user id : Uuid} :
    (verifyToken argon2 s.rows header now).1 = some (user, id) ↔
      ∃ t ∈ s.issued, t.id = id ∧ t.user = user ∧ presented header = some t.secret ∧
        id ∉ s.revoked := by
  constructor
  · intro hverify
    unfold verifyToken at hverify
    split at hverify
    · cases hverify
    · rename_i secret hsecret
      split at hverify
      · cases hverify
      · rename_i row hfind
        obtain ⟨t, ht, hrow⟩ := exists_of_forall₂ h.rows (List.mem_of_find?_eq_some hfind)
        obtain ⟨salt, hhash⟩ := hrow.hashed
        rw [hlaw salt t.secret row.tokenHash hhash] at hverify
        split at hverify
        · cases hverify
        · rename_i hlive
          split at hverify
          · cases hverify
          · rename_i heq
            cases hverify
            have hsame : secret = t.secret := by simpa using heq
            rw [hrow.revoked, ← hrow.id] at hlive
            exact ⟨t, ht, hrow.id.symm, hrow.user.symm, by rw [hsecret, hsame], hlive⟩
  · rintro ⟨t, ht, rfl, rfl, hsecret, hlive⟩
    obtain ⟨row, hmem, hrow⟩ := exists_of_forall₂ h.rows.flip ht
    obtain ⟨salt, hhash⟩ := hrow.hashed
    have hfind : s.rows.find? (fun r => r.tokenPrefix = lookup t.secret) = some row := by
      rw [← hrow.found]
      exact Relational.find?_key_eq_some h.prefixes hmem
    rw [← hrow.revoked] at hlive
    have hverify : argon2.verifySecret t.secret row.tokenHash = some true := by
      rw [hlaw salt t.secret row.tokenHash hhash, decide_eq_true rfl]
    unfold verifyToken
    simp only [hsecret, hfind, if_neg hlive, hverify, Option.getD_some, Bool.true_eq_false,
      if_false, hrow.user, hrow.id]

theorem isWhitespace_of_mem_secret (draw : Draw) :
    ∀ c ∈ draw.secret.toList, isWhitespace c = false := by
  intro c hc
  rw [Draw.secret, ByteCode.hexEncode, String.toList_ofList, List.mem_flatMap] at hc
  obtain ⟨b, -, hb⟩ := hc
  have hdigit : ∀ n < 16, isWhitespace (Nat.digitChar n) = false := by decide
  have hlt := b.toNat_lt
  simp only [List.mem_cons, List.not_mem_nil, or_false] at hb
  rcases hb with rfl | rfl
  · exact hdigit _ (by omega)
  · exact hdigit _ (by omega)

theorem length_secret (draw : Draw) : draw.secret.length = 48 := by
  simp [Draw.secret, ByteCode.hexEncode, List.length_flatMap]

/-- The plaintext of a drawn token presents its secret, behind `Bearer `. -/
theorem presented_bearer (draw : Draw) :
    presented ("Bearer " ++ (tokenPrefix ++ draw.secret)) = some draw.secret := by
  have htrim : trim (tokenPrefix ++ draw.secret) = tokenPrefix ++ draw.secret := by
    refine trim_eq_self fun c hc => ?_
    rw [String.toList_append] at hc
    rcases List.mem_append.mp hc with hc | hc
    · exact (forall_chars rfl : ∀ c ∈ tokenPrefix.toList, isWhitespace c = false) c hc
    · exact isWhitespace_of_mem_secret draw c hc
  have hbearer : stripPrefix "Bearer " ("Bearer " ++ (tokenPrefix ++ draw.secret)) =
      some (tokenPrefix ++ draw.secret) := stripPrefix_eq_some.mpr rfl
  have hfront : stripPrefix tokenPrefix (tokenPrefix ++ draw.secret) = some draw.secret :=
    stripPrefix_eq_some.mpr rfl
  have hlong : ¬ draw.secret.length < prefixChars := by
    rw [length_secret]
    decide
  unfold presented
  simp only [hbearer, Option.getD_some, htrim, hfront, if_neg hlong]

/-! ## Runs -/

/-- What is issued stays issued, and what is revoked stays revoked. -/
def Later (s t : State) : Prop := s.issued ⊆ t.issued ∧ s.revoked ⊆ t.revoked

/-- A step forgets neither a token nor a revocation. -/
theorem later_step (s : State) (a : Action) : Later s (step argon2 s a) := by
  cases a with
  | issue user name draw =>
    rw [step]
    split
    · exact ⟨List.Subset.refl _, List.Subset.refl _⟩
    · exact ⟨List.subset_append_left _ _, List.Subset.refl _⟩
  | verify header now =>
    rw [step]
    exact ⟨List.Subset.refl _, List.Subset.refl _⟩
  | revoke token user now =>
    rw [step]
    refine ⟨List.Subset.refl _, ?_⟩
    dsimp only
    split
    · exact List.subset_cons_self _ _
    · exact List.Subset.refl _

/-- No two tokens share a secret. -/
theorem Recorded.id_eq (h : Recorded argon2 s) {t t' : Issued} (ht : t ∈ s.issued)
    (ht' : t' ∈ s.issued) (heq : t.secret = t'.secret) : t.id = t'.id := by
  obtain ⟨row, hmem, hrow⟩ := exists_of_forall₂ h.rows.flip ht
  obtain ⟨row', hmem', hrow'⟩ := exists_of_forall₂ h.rows.flip ht'
  have hsame : row = row' := List.inj_on_of_nodup_map h.prefixes hmem hmem' <| by
    rw [hrow.found, hrow'.found, heq]
  rw [← hrow.id, ← hrow'.id, hsame]

theorem Recorded.bearer (h : Recorded argon2 s) (hlaw : argon2.Lawful) {t : Issued}
    (ht : t ∈ s.issued) (now : ℤ) :
    (verifyToken argon2 s.rows ("Bearer " ++ t.plaintext) now).1 =
      if t.id ∈ s.revoked then none else some (t.user, t.id) := by
  obtain ⟨row, -, hrow⟩ := exists_of_forall₂ h.rows.flip ht
  obtain ⟨draw, hdraw⟩ := hrow.drawn
  have hpresented : presented ("Bearer " ++ t.plaintext) = some t.secret := by
    rw [Issued.plaintext, hdraw]
    exact presented_bearer draw
  split
  · next hrevoked =>
    refine Option.eq_none_iff_forall_ne_some.mpr fun found hfound => ?_
    obtain ⟨user, id⟩ := found
    obtain ⟨t', ht', hid, -, hsecret, hlive⟩ := (h.verifyToken_eq_some hlaw).mp hfound
    rw [hpresented, Option.some.injEq] at hsecret
    rw [← hid, ← h.id_eq ht ht' hsecret] at hlive
    exact hlive hrevoked
  · next hlive =>
    exact (h.verifyToken_eq_some hlaw).mpr ⟨t, ht, rfl, rfl, hpresented, hlive⟩

/-- In every run, a header is taken for the user of the token whose secret it presents, until the
user revokes it. -/
theorem verifies_iff_live (hlaw : argon2.Lawful) (actions : List Action) :
    ∀ s ∈ Runs.visited (step argon2) {} actions, ∀ header now user id,
      (verifyToken argon2 s.rows header now).1 = some (user, id) ↔
        ∃ t ∈ s.issued, t.id = id ∧ t.user = user ∧ presented header = some t.secret ∧
          id ∉ s.revoked :=
  fun s hs _ _ _ _ =>
    (Runs.invariant (fun _ a h => h.step a) actions recorded_start s hs).verifyToken_eq_some hlaw

/-- The plaintext that a user was given works from then on until the user revokes the token, and
never again after. -/
theorem bearer_until_revoked (hlaw : argon2.Lawful) (actions : List Action) :
    (Runs.visited (step argon2) {} actions).Pairwise fun s s' =>
      ∀ t ∈ s.issued, (t.id ∈ s.revoked → t.id ∈ s'.revoked) ∧
        ∀ now, (verifyToken argon2 s'.rows ("Bearer " ++ t.plaintext) now).1 =
          if t.id ∈ s'.revoked then none else some (t.user, t.id) := by
  have hlater : (Runs.visited (step argon2) {} actions).Pairwise Later :=
    Runs.pairwise_visited (P := fun _ => True) (C := fun _ _ => True)
      (fun _ _ _ h h' => ⟨List.Subset.trans h.1 h'.1, List.Subset.trans h.2 h'.2⟩)
      (fun s a _ _ => ⟨trivial, later_step s a⟩) trivial (Runs.meets_of_forall fun _ _ => trivial)
  refine hlater.imp_of_mem fun {s s'} _ hs' hsub t ht => ⟨fun h => hsub.2 h, fun now => ?_⟩
  exact (Runs.invariant (fun _ a h => h.step a) actions recorded_start s' hs').bearer hlaw
    (hsub.1 ht) now

namespace Sample

def plain : Argon2 where
  hashSecret _ secret := some secret
  verifySecret presented hash := some (decide (presented = hash))

theorem plain_lawful : plain.Lawful := by
  intro salt secret hash hhash presented
  cases hhash
  rfl

def draw : Draw where
  bytes := Vector.replicate 24 0
  salt := ""
  id := 41
  now := 0

/-- A token is issued to the user 7 and revoked. -/
def issuedAndRevoked : List Action := [.issue 7 "laptop" draw, .revoke 41 7 1]

end Sample

open ApiTokens.Sample in
theorem verifies_iff_live_plain : plain.Lawful ∧
    let s := Runs.exec (step plain) {} issuedAndRevoked
    ∀ header now user id, (verifyToken plain s.rows header now).1 = some (user, id) ↔
      ∃ t ∈ s.issued, t.id = id ∧ t.user = user ∧ presented header = some t.secret ∧
        id ∉ s.revoked :=
  ⟨plain_lawful, verifies_iff_live plain_lawful issuedAndRevoked _ (Runs.exec_mem_visited _ _)⟩

open ApiTokens.Sample in
theorem bearer_until_revoked_plain : plain.Lawful ∧
    (Runs.visited (step plain) {} issuedAndRevoked).Pairwise fun s s' =>
      ∀ t ∈ s.issued, (t.id ∈ s.revoked → t.id ∈ s'.revoked) ∧
        ∀ now, (verifyToken plain s'.rows ("Bearer " ++ t.plaintext) now).1 =
          if t.id ∈ s'.revoked then none else some (t.user, t.id) :=
  ⟨plain_lawful, bearer_until_revoked plain_lawful issuedAndRevoked⟩

end OpenAccounting.ApiTokens
