import OpenAccounting.System.WebhookSchedule

/-!
# Hosts that webhooks must not reach

`post_signed` looks at the text of the host.  An IPv6 address has square brackets there, with which
`is_ipv6_private` reads no address, so it lets every one of them pass.
-/

namespace OpenAccounting.Webhooks

open Net

/-- The host of a URL. -/
inductive Host where
  | domain (name : String)
  | ipv4 (a : Ipv4Addr)
  | ipv6 (a : Ipv6Addr)

/-- Loopback, private, link-local or unspecified. -/
def InternalIpv4 (a : Ipv4Addr) : Prop :=
  (a.isLoopback || a.isPrivate || a.isLinkLocal || a.isUnspecified) = true

/-- Loopback, unspecified, unique-local, link-local, or such an IPv4 address. -/
def InternalIpv6 (a : Ipv6Addr) : Prop :=
  (a.isLoopback || a.isUnspecified || a.isUniqueLocal || a.isUnicastLinkLocal) = true ∨
    ∃ b, InternalIpv4 b ∧ a = .mapped b

/-- A host of the internal network. -/
def Host.Internal : Host → Prop
  | domain name => RustStr.eqIgnoreAsciiCase name "localhost" = true
  | ipv4 a => InternalIpv4 a
  | ipv6 a => InternalIpv6 a

/-- What the `url` crate says about hosts: `host_str` is dotted decimal for an IPv4 address and has
square brackets for an IPv6 address, and the domain of an `https` URL is in lower case. -/
structure HostTexts (lib : Libraries) (host : String → Option Host) : Prop where
  domain : ∀ url name, host url = some (.domain name) → lib.hostStr url = .ok (some name) ∧
    (RustStr.startsWith "https://" url = true → RustStr.toAsciiLowercase name = name)
  ipv4 : ∀ url a, host url = some (.ipv4 a) → lib.hostStr url = .ok (some a.display)
  ipv6 : ∀ url a, host url = some (.ipv6 a) →
    ∃ text, lib.hostStr url = .ok (some ("[" ++ text ++ "]"))

/-! ## The text of a host -/

theorem isPrivate172_display (a : Ipv4Addr) : isPrivate172 a.display = a.isPrivate := by
  rw [isPrivate172, parse_display, Option.map_some, Option.getD_some]

theorem isPrivateHost_display {a : Ipv4Addr} (h : InternalIpv4 a) :
    isPrivateHost a.display = true := by
  simp only [InternalIpv4, Bool.or_eq_true] at h
  rcases h with ((hloopback | hprivate) | hlink) | hzero
  · have hfirst : a.first = 127 := eq_of_beq hloopback
    have hprefix : RustStr.startsWith "127." a.display = true := by
      rw [RustStr.startsWith, toList_display, hfirst]
      rfl
    rw [isPrivateHost, hprefix]
    simp only [Bool.or_true, Bool.true_or]
  · rw [isPrivateHost, isPrivate172_display, hprivate, Bool.or_true, Bool.true_or]
  · obtain ⟨hfirst, hsecond⟩ := Bool.and_eq_true_iff.mp hlink
    have hprefix : RustStr.startsWith "169.254." a.display = true := by
      rw [RustStr.startsWith, toList_display, eq_of_beq hfirst, eq_of_beq hsecond]
      rfl
    rw [isPrivateHost, hprefix]
    simp only [Bool.or_true, Bool.true_or]
  · obtain rfl : a = ⟨0, 0, 0, 0⟩ := eq_of_beq hzero
    rfl

theorem isPrivateHost_bracketed {host : String} {cs : List Char}
    (hlist : host.toList = '[' :: (cs ++ [']'])) : isPrivateHost host = false := by
  have hne : ∀ s : String, s.toList.head? ≠ some '[' → (host == s) = false := by
    rintro s hs
    refine beq_eq_false_iff_ne.mpr fun heq => hs ?_
    rw [← heq, hlist, List.head?_cons]
  have hlocal : ".local".toList.isSuffixOf ('[' :: (cs ++ [']'])) = false := by
    rw [List.isSuffixOf, List.reverse_cons, List.reverse_append]
    rfl
  obtain ⟨hv4, hv6⟩ := parse_bracketed hlist
  rw [isPrivateHost, hne _ (by decide), hne _ (by decide), isPrivate172, isIpv6Private, hv4, hv6]
  simp only [RustStr.startsWith, hlist, hlocal]
  rfl

/-! ## The guard -/

section

variable {lib : Libraries} {host : String → Option Host} {url : String} {h : Host}

theorem refusal_of_unset (hunset : lib.allowInsecureHttp = none) : refusal lib url =
    if RustStr.startsWith "https://" url = false then some "target must be https"
    else match lib.hostStr url with
      | .error e => some e
      | .ok host =>
        if isPrivateHost (host.getD "") then some "target resolves to a private address"
        else none := by
  simp only [refusal, hunset]
  cases RustStr.startsWith "https://" url <;> rfl

/-- An internal host of an `https` URL is let through exactly if it is an IPv6 address. -/
theorem refusal_eq_none_iff (hunset : lib.allowInsecureHttp = none) (htexts : HostTexts lib host)
    (hhost : host url = some h) (hinternal : h.Internal) :
    refusal lib url = none ↔ RustStr.startsWith "https://" url = true ∧ ∃ a, h = .ipv6 a := by
  rw [refusal_of_unset hunset]
  cases hhttps : RustStr.startsWith "https://" url with
  | false => simp
  | true =>
    cases h with
    | domain name =>
      obtain ⟨htext, hlower⟩ := htexts.domain url name hhost
      have hname : name = "localhost" := by
        have hequal := of_decide_eq_true hinternal
        have hlocal : RustStr.toAsciiLowercase "localhost" = "localhost" := by decide
        rwa [hlower hhttps, hlocal] at hequal
      have hprivate : isPrivateHost "localhost" = true := rfl
      simp [htext, hname, hprivate]
    | ipv4 a => simp [htexts.ipv4 url a hhost, isPrivateHost_display hinternal]
    | ipv6 a =>
      obtain ⟨text, htext⟩ := htexts.ipv6 url a hhost
      have hlist : ("[" ++ text ++ "]").toList = '[' :: (text.toList ++ [']']) := by simp
      simp [htext, isPrivateHost_bracketed hlist]

theorem sends_of_refusal (hpass : refusal lib url = none) (delivery : Uuid)
    (send : Post → Except String ℕ) (secret body : String) :
    (postSigned lib (.ok ()) delivery send url secret body).2 ≠ [] := by
  unfold postSigned
  rw [hpass]
  exact List.cons_ne_nil _ _

/-- Without the escape hatch a webhook to an internal host ends with an error and without a request,
whatever the client and the receiver do, exactly if its URL is not an `https` URL with an IPv6
address. -/
theorem postSigned_refuses_iff (hunset : lib.allowInsecureHttp = none)
    (htexts : HostTexts lib host) (hhost : host url = some h) (hinternal : h.Internal) :
    (∀ client delivery send secret body, ∃ e,
      postSigned lib client delivery send url secret body = (.error e, [])) ↔
      ¬ (RustStr.startsWith "https://" url = true ∧ ∃ a, h = .ipv6 a) := by
  rw [← refusal_eq_none_iff hunset htexts hhost hinternal]
  constructor
  · intro hrefused hnone
    obtain ⟨e, he⟩ := hrefused (.ok ()) 0 (fun _ => .ok 200) "" ""
    exact absurd (congrArg Prod.snd he) (sends_of_refusal hnone _ _ _ _)
  · intro hsome client delivery send secret body
    obtain ⟨e, he⟩ := Option.ne_none_iff_exists'.mp hsome
    refine ⟨e, ?_⟩
    unfold postSigned
    rw [he]

end

namespace Sample

theorem loopback_size : #[(0 : Fin 65536), 0, 0, 0, 0, 0, 0, 1].size = 8 := rfl

def host (url : String) : Option Host :=
  if url = "https://[::1]/in" then some (.ipv6 ⟨⟨#[0, 0, 0, 0, 0, 0, 0, 1], loopback_size⟩⟩)
  else if url = "https://172.16.0.1/in" then some (.ipv4 ⟨172, 16, 0, 1⟩)
  else none

theorem hostTexts : HostTexts libraries host where
  domain url name h := by
    simp only [host] at h
    split at h
    · cases h
    · split at h <;> cases h
  ipv4 url a h := by
    simp only [host] at h
    split at h
    · cases h
    · split at h
      · next hurl =>
          cases h
          subst hurl
          rfl
      · cases h
  ipv6 url a h := by
    simp only [host] at h
    split at h
    · next hurl =>
        cases h
        subst hurl
        exact ⟨"::1", rfl⟩
    · split at h <;> cases h

end Sample

theorem postSigned_refuses_private :
    Sample.host "https://172.16.0.1/in" = some (.ipv4 ⟨172, 16, 0, 1⟩) ∧
      ∀ client delivery send secret body, ∃ e,
        postSigned Sample.libraries client delivery send "https://172.16.0.1/in" secret body =
          (.error e, []) := by
  have hhost : Sample.host "https://172.16.0.1/in" = some (.ipv4 ⟨172, 16, 0, 1⟩) := rfl
  refine ⟨hhost, (postSigned_refuses_iff rfl Sample.hostTexts hhost rfl).mpr ?_⟩
  rintro ⟨-, a, ha⟩
  cases ha

/-- A request is sent to the loopback address. -/
theorem postSigned_reaches_loopback :
    Sample.host "https://[::1]/in" = some (.ipv6 ⟨#v[0, 0, 0, 0, 0, 0, 0, 1]⟩) ∧
      (Host.ipv6 ⟨#v[0, 0, 0, 0, 0, 0, 0, 1]⟩).Internal ∧ HostTexts Sample.libraries Sample.host ∧
      Sample.libraries.allowInsecureHttp = none ∧
      ∀ delivery send secret body, (postSigned Sample.libraries (.ok ()) delivery send
        "https://[::1]/in" secret body).2 ≠ [] := by
  have hpass : refusal Sample.libraries "https://[::1]/in" = none := rfl
  exact ⟨rfl, .inl rfl, Sample.hostTexts, rfl, sends_of_refusal hpass⟩

end OpenAccounting.Webhooks
