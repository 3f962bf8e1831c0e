import Mathlib.Data.List.Chain
import Mathlib.Order.Basic
import Mathlib.Tactic.Linarith
import OpenAccounting.Lib.ByteCode

/-!
# Session timeouts

`auth/session_timeout.rs`.  A session keeps the time of its login and the time at which it was last
seen.  The middleware refreshes the second one only if at least half of the idle window is over, so
the stored time lags behind the last request, but by less than that half.

Times are in milliseconds.  The session store keeps what is put into it.
-/

namespace OpenAccounting.SessionTimeout

/-! ## The code -/

structure SessionGuard where
  idle : ℕ := 30 * 60 * 1000
  absolute : ℕ := 12 * 60 * 60 * 1000

/-- The keys of a session that are read and written here. -/
structure Session where
  createdAt : Option ℤ := none
  lastSeenAt : Option ℤ := none
deriving DecidableEq

def markAuthenticated (session : Session) (now : ℤ) : Session :=
  { session with createdAt := some now, lastSeenAt := some now }

/-- The bytes that `urlencode` keeps. -/
def isUnreserved (b : UInt8) : Bool :=
  let c := Char.ofNat b.toNat
  c.isAlphanum || c ∈ ['-', '_', '.', '~', '/']

def urlencode (s : String) : String :=
  String.join ((ByteCode.utf8 s).map fun b =>
    if isUnreserved b then String.singleton (Char.ofNat b.toNat)
    else "%" ++ (ByteCode.hexEncode [b]).toUpper)

/-- A request, as far as the middleware looks at it. -/
structure Request where
  now : ℤ
  pathAndQuery : Option String := none

/-- What the middleware answers. -/
inductive Response where
  /-- The request goes on to the next layer. -/
  | next
  /-- The redirect to the login page. -/
  | seeOther (location : String)
deriving DecidableEq

/-- The redirect of a request that comes too late. -/
def expired (req : Request) : Response :=
  .seeOther ("/login?next=" ++ urlencode (req.pathAndQuery.getD "/") ++ "&expired=1")

/-- `enforce_timeout`, with the session that it leaves.  A request without a session is passed on,
and an expired session is flushed. -/
def enforceTimeout (guard : SessionGuard) (req : Request) :
    Option Session → Response × Option Session
  | none => (.next, none)
  | some session =>
    let idleExpired := session.lastSeenAt.any fun t => guard.idle < req.now - t
    let absoluteExpired := session.createdAt.any fun t => guard.absolute < req.now - t
    if idleExpired || absoluteExpired then (expired req, some {})
    else
      let shouldRefresh := session.lastSeenAt.all fun t => (guard.idle : ℤ) / 2 ≤ req.now - t
      (.next, some (if shouldRefresh then { session with lastSeenAt := some req.now } else session))

/-- The answers to the requests of a session.  The session ends when it is flushed, so a redirect
is the last answer. -/
def serve (guard : SessionGuard) (session : Option Session) : List Request → List Response
  | [] => []
  | req :: reqs =>
    let (response, session') := enforceTimeout guard req session
    response :: if response = .next then serve guard session' reqs else []

/-! ## The stored time -/

variable {guard : SessionGuard} {login last : ℤ} {session : Session} {req : Request}

/-- The session of a login, last asked for at `last`.  Either that request was stored, or less than
half of the idle window lies between it and the one that was. -/
structure Tracks (guard : SessionGuard) (login last : ℤ) (session : Session) : Prop where
  created : session.createdAt = some login
  lags : ∃ seen, session.lastSeenAt = some seen ∧ seen ≤ last ∧
    (seen = last ∨ last - seen < (guard.idle : ℤ) / 2)

theorem tracks_markAuthenticated (guard : SessionGuard) (session : Session) (login : ℤ) :
    Tracks guard login login (markAuthenticated session login) :=
  ⟨rfl, login, rfl, le_rfl, Or.inl rfl⟩

/-- A request comes too late by what is stored, or it is stored or near enough. -/
theorem Tracks.cases (h : Tracks guard login last session) (hlast : last ≤ req.now) :
    (enforceTimeout guard req (some session)).1 = expired req ∧
        ((guard.idle : ℤ) / 2 < req.now - last ∨ (guard.absolute : ℤ) < req.now - login) ∨
      (∃ session', enforceTimeout guard req (some session) = (.next, some session') ∧
        Tracks guard login req.now session') ∧
        req.now - last ≤ guard.idle ∧ req.now - login ≤ guard.absolute := by
  obtain ⟨hcreated, seen, hseen, hle, hlag⟩ := h
  have hidle : (0 : ℤ) ≤ guard.idle := Int.natCast_nonneg _
  rw [enforceTimeout, hcreated, hseen]
  simp only [Option.any_some, Option.all_some, Bool.or_eq_true, decide_eq_true_eq]
  split
  · next hlate => exact Or.inl ⟨rfl, by omega⟩
  · next hintime =>
      rw [not_or, not_lt, not_lt] at hintime
      refine Or.inr ⟨⟨_, rfl, ?_⟩, by omega, hintime.2⟩
      split
      · exact ⟨rfl, req.now, rfl, le_rfl, Or.inl rfl⟩
      · next hfresh => exact ⟨hcreated, seen, hseen, by omega, Or.inr (by omega)⟩

/-! ## Whole sequences -/

/-- The times of the requests, behind the time of the login or of the request before them. -/
def times (start : ℤ) (reqs : List Request) : List ℤ := start :: reqs.map Request.now

/-- The time of the last request, or of the login. -/
def previous (start : ℤ) (reqs : List Request) : ℤ := (reqs.map Request.now).getLastD start

theorem previous_cons (start : ℤ) (req : Request) (reqs : List Request) :
    previous start (req :: reqs) = previous req.now reqs := List.getLastD_cons ..

/-- A late request is rejected, whatever was stored of those before it. -/
theorem Tracks.late (h : Tracks guard login last session) {before : List Request}
    (hsorted : (times last (before ++ [req])).Pairwise (· ≤ ·))
    (hlate : guard.idle < req.now - previous last before ∨ guard.absolute < req.now - login) :
    ∀ r ∈ (serve guard (some session) (before ++ [req]))[before.length]?, r = expired req := by
  induction before generalizing last session with
  | nil =>
    intro r hr
    have hlast : last ≤ req.now := (List.pairwise_cons.mp hsorted).1 _ (by simp)
    rw [List.nil_append, serve, List.length_nil, List.getElem?_cons_zero] at hr
    cases hr
    have hprevious : previous last [] = last := rfl
    rw [hprevious] at hlate
    rcases h.cases hlast with ⟨hrejected, -⟩ | ⟨-, hintime⟩
    · exact hrejected
    · omega
  | cons first before ih =>
    intro r hr
    obtain ⟨hfirst, hrest⟩ := List.pairwise_cons.mp hsorted
    rw [previous_cons] at hlate
    rw [List.cons_append, serve, List.length_cons, List.getElem?_cons_succ] at hr
    rcases h.cases (hfirst first.now (by simp)) with ⟨hrejected, -⟩ | ⟨⟨session', hpassed, h'⟩, -⟩
    · rw [hrejected] at hr
      simp [expired] at hr
    · rw [hpassed] at hr
      exact ih h' hrest hlate r hr

/-- Requests that follow each other within half of the idle window pass. -/
theorem Tracks.steady (h : Tracks guard login last session) {reqs : List Request}
    (hsorted : (times last reqs).Pairwise (· ≤ ·))
    (hgaps : (times last reqs).IsChain fun a b => b - a ≤ (guard.idle : ℤ) / 2)
    (hage : ∀ r ∈ reqs, r.now - login ≤ guard.absolute) :
    serve guard (some session) reqs = List.replicate reqs.length .next := by
  induction reqs generalizing last session with
  | nil => rfl
  | cons first reqs ih =>
    obtain ⟨hgap, hrest⟩ := List.isChain_cons_cons.mp hgaps
    obtain ⟨hle, hsorted⟩ := List.pairwise_cons.mp hsorted
    obtain ⟨hfirst, hage⟩ := List.forall_mem_cons.mp hage
    rcases h.cases (hle first.now (by simp)) with ⟨-, hlate⟩ | ⟨⟨session', hpassed, h'⟩, -⟩
    · omega
    · rw [serve, hpassed, List.length_cons, List.replicate_succ]
      simp only [if_true]
      rw [ih h' hsorted hrest hage]

/-- A request is rejected more than `idle` after the one before it or more than `absolute` after the
login, if the session lasts until then.  None is rejected while all gaps are at most half of `idle`
and the session is not older than `absolute`. -/
theorem timeouts_enforced (guard : SessionGuard) (session : Session) (login : ℤ)
    (before : List Request) (req : Request)
    (hsorted : (times login (before ++ [req])).Pairwise (· ≤ ·)) :
    let responses := serve guard (some (markAuthenticated session login)) (before ++ [req])
    ((guard.idle < req.now - previous login before ∨ guard.absolute < req.now - login) →
        ∀ r ∈ responses[before.length]?, r = expired req) ∧
      ((times login (before ++ [req])).IsChain (fun a b => b - a ≤ (guard.idle : ℤ) / 2) →
        req.now - login ≤ guard.absolute →
          responses = List.replicate (before.length + 1) .next) := by
  have htracks := tracks_markAuthenticated guard session login
  refine ⟨htracks.late hsorted, fun hgaps hage => ?_⟩
  have hages : ∀ r ∈ before ++ [req], r.now - login ≤ guard.absolute := by
    intro r hr
    rcases List.mem_append.mp hr with hr | hr
    · have hle : r.now ≤ req.now := by
        have htimes := (List.pairwise_cons.mp hsorted).2
        rw [List.map_append, List.pairwise_append] at htimes
        exact htimes.2.2 r.now (List.mem_map_of_mem hr) req.now (by simp)
      omega
    · rw [List.mem_singleton.mp hr]
      exact hage
  have hserved := htracks.steady hsorted hgaps hages
  rwa [List.length_append, List.length_singleton] at hserved

/-- Two requests within the default windows, and one 31 minutes later. -/
theorem timeouts_enforced_breaks :
    serve {} (some (markAuthenticated {} 0)) [⟨600000, none⟩, ⟨1200000, none⟩] =
        List.replicate 2 .next ∧
      ∀ r ∈ (serve {} (some (markAuthenticated {} 0))
        [⟨600000, none⟩, ⟨1200000, none⟩, ⟨3060000, none⟩])[2]?, r = expired ⟨3060000, none⟩ :=
  ⟨(timeouts_enforced {} {} 0 [⟨600000, none⟩] ⟨1200000, none⟩ (by decide)).2 (by decide)
      (by decide),
    (timeouts_enforced {} {} 0 [⟨600000, none⟩, ⟨1200000, none⟩] ⟨3060000, none⟩
      (by decide)).1 (by decide)⟩

end OpenAccounting.SessionTimeout
