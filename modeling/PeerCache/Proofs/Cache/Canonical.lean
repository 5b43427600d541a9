import PeerCache.Proofs.Cache.Indistinguishable

/-!
# `PeerCache.Proofs.Cache.Canonical`: a host has one spelling

An IPv4 host can also be written as an IPv6 address that embeds it, and an IPv6
endpoint can carry a flow label and a scope. `Endpoint.IsPlain` says that an endpoint
has none of this. The canonical form is the plain spelling of the same endpoint.

* `Endpoint.canonical_eq_self_iff`: to be plain is to be one's own canonical form.
* `serve_canonical`: a request and its canonical form get the same reply, use the
  random source up alike and leave the same cache.
* `serveAll_eq_of_canonical`: so do two sequences of requests that spell the same hosts
  differently, by induction.
* `Reachable.one_spelling`: what a cache stores is plain, and no host has two records.
-/

set_option autoImplicit false

namespace PeerCache

/-! ### Plain spellings -/

/-- The address does not embed another one. -/
def Ip.IsPlain : Ip → Prop
  | .v4 _ => True
  | .v6 ip => ¬ ip.IsEmbedded

/-- The address is plain, and there is neither flow label nor scope. -/
def Endpoint.IsPlain : Endpoint → Prop
  | .v4 _ _ => True
  | .v6 ip _ flow scope => ¬ ip.IsEmbedded ∧ flow = 0 ∧ scope = 0

namespace Ip

theorem canonical_of_embedded {ip : Ipv6} (h : ip.IsEmbedded) :
    (Ip.v6 ip).canonical = .v4 (Ipv4.ofWords ip.w6 ip.w7) := by
  simp [canonical, ofWide, Ipv6.embedded?, h]

theorem canonical_of_not_embedded {ip : Ipv6} (h : ¬ ip.IsEmbedded) :
    (Ip.v6 ip).canonical = .v6 ip := by
  simp [canonical, ofWide, Ipv6.embedded?, h]

theorem canonical_eq_self_iff (ip : Ip) : ip.canonical = ip ↔ ip.IsPlain := by
  cases ip with
  | v4 ip => simp [canonical, IsPlain]
  | v6 ip =>
      by_cases h : ip.IsEmbedded
      · simp [canonical_of_embedded h, IsPlain, h]
      · simp [canonical_of_not_embedded h, IsPlain, h]

end Ip

namespace Endpoint

theorem canonical_eq_self_iff (e : Endpoint) : e.canonical = e ↔ e.IsPlain := by
  cases e with
  | v4 ip port => exact ⟨fun _ => trivial, fun _ => rfl⟩
  | v6 ip port flow scope =>
      by_cases h : ip.IsEmbedded
      · simp [canonical, ofIp, Endpoint.ip, Ip.canonical_of_embedded h, IsPlain, h]
      · simp [canonical, ofIp, Endpoint.ip, Endpoint.port, Ip.canonical_of_not_embedded h, IsPlain,
          h, eq_comm]

end Endpoint

/-! ### Requests -/

/-- The request with every endpoint and source in canonical notation. -/
def Request.canonical : Request → Request
  | .learn a source penalty now => .learn a.canonical source.canonical penalty now
  | .confirm e now => .confirm e.canonical now
  | .noteAttempt e now => .noteAttempt e.canonical now
  | .noteAlive e now => .noteAlive e.canonical now
  | .contains e => .contains e.canonical
  | .find e => .find e.canonical
  | q => q

namespace Cache

variable {σ w : Type} [RandomSource σ] [Weight w]

@[simp] theorem lookup_canonical (c : Cache) (e : Endpoint) :
    c.lookup e.canonical = c.lookup e := by
  simp [lookup]

@[simp] theorem newSlot_canonical (c : Cache) (b : Fin newBucketCount) (e : Endpoint) :
    c.newSlot b e.canonical = c.newSlot b e := by
  simp [newSlot]

@[simp] theorem primarySlot_canonical (c : Cache) (e : Endpoint) (source : Ip) :
    c.primarySlot e.canonical source.canonical = c.primarySlot e source := by
  simp [primarySlot]

@[simp] theorem triedSlot_canonical (c : Cache) (e : Endpoint) :
    c.triedSlot e.canonical = c.triedSlot e := by
  simp [triedSlot]

/-- One request: the notation of its endpoint and source makes no difference. -/
theorem serve_canonical (c : Cache) (q : Request) :
    (c.serve w q.canonical : Draw σ (Reply × Cache)) = c.serve w q := by
  cases q with
  | learn a source penalty now => simp [serve, Request.canonical, learn, learnUnaudited]
  | confirm e now => simp [serve, Request.canonical, confirm, confirmUnaudited]
  | noteAttempt e now => simp [serve, Request.canonical, noteAttempt]
  | noteAlive e now => simp [serve, Request.canonical, noteAlive]
  | choose now => rfl
  | contains e => simp [serve, Request.canonical, contains]
  | find e => simp [serve, Request.canonical, find?]
  | stats => rfl

/-- A sequence of requests can be brought into canonical notation first. -/
theorem serveAll_canonical (c : Cache) (qs : List Request) :
    (c.serveAll w (qs.map Request.canonical) : Draw σ (List Reply × Cache)) =
      c.serveAll w qs := by
  induction qs generalizing c with
  | nil => rfl
  | cons q qs ih =>
      show (c.serve w q.canonical >>= fun x => x.2.serveAll w (qs.map Request.canonical) >>= _) = _
      simp only [serve_canonical, ih]
      rfl

/-- Two sequences of requests that spell the same hosts differently. -/
theorem serveAll_eq_of_canonical (c : Cache) {qs qs' : List Request}
    (h : qs.map Request.canonical = qs'.map Request.canonical) :
    (c.serveAll w qs : Draw σ (List Reply × Cache)) = c.serveAll w qs' := by
  rw [← serveAll_canonical c qs, h, serveAll_canonical c qs']

/-! ### What is stored -/

variable {c : Cache} {allowed : Operation → Prop}

theorem Indexed.isPlain (h : Indexed c) {id : RecordId} {r : Record}
    (hr : c.records[id]? = some r) : r.endpoint.IsPlain ∧ r.source.IsPlain := by
  obtain ⟨hendpoint, hsource⟩ := h.canonical id r hr
  exact ⟨(Endpoint.canonical_eq_self_iff _).mp hendpoint, (Ip.canonical_eq_self_iff _).mp hsource⟩

theorem Indexed.isPlain_key (h : Indexed c) {ip : Ip} {id : RecordId}
    (hget : c.addresses[ip]? = some id) : ip.IsPlain := by
  obtain ⟨r, hr, hip⟩ := (h.addresses_iff ip id).mp hget
  have hcanonical := congrArg Endpoint.ip (h.canonical id r hr).1
  rw [Endpoint.ip_canonical] at hcanonical
  exact (Ip.canonical_eq_self_iff ip).mp (hip ▸ hcanonical)

/-- Records whose addresses mean the same host are one. -/
theorem Indexed.id_unique_canonical (h : Indexed c) {id id' : RecordId} {r r' : Record}
    (hr : c.records[id]? = some r) (hr' : c.records[id']? = some r')
    (hip : r.ip.canonical = r'.ip.canonical) : id = id' := by
  have hself := congrArg Endpoint.ip (h.canonical id r hr).1
  have hself' := congrArg Endpoint.ip (h.canonical id' r' hr').1
  rw [Endpoint.ip_canonical] at hself hself'
  exact h.id_unique hr hr' (hself.symm.trans (hip.trans hself'))

/-- Notation neither splits nor hides a host. Whatever operations have led to a cache, all
addresses and sources in it are plain, and a host has one record at most. Every endpoint
and source takes the slots of its canonical form. Requests that agree up to notation, in
any mixture, get the same replies, draw the same and leave the same cache. -/
theorem Reachable.one_spelling (h : Reachable allowed c) :
    (∀ (id : RecordId) (r : Record), c.records[id]? = some r →
      r.endpoint.IsPlain ∧ r.source.IsPlain) ∧
    (∀ (ip : Ip) (id : RecordId), c.addresses[ip]? = some id → ip.IsPlain) ∧
    (∀ (id id' : RecordId) (r r' : Record), c.records[id]? = some r → c.records[id']? = some r' →
      r.ip.canonical = r'.ip.canonical → id = id') ∧
    (∀ (e : Endpoint) (source : Ip),
      c.primarySlot e.canonical source.canonical = c.primarySlot e source ∧
      c.triedSlot e.canonical = c.triedSlot e ∧
      ∀ b : Fin newBucketCount, c.newSlot b e.canonical = c.newSlot b e) ∧
    ∀ (σ w : Type) [RandomSource σ] [Weight w] (qs qs' : List Request),
      qs.map Request.canonical = qs'.map Request.canonical →
        (c.serveAll w qs : Draw σ (List Reply × Cache)) = c.serveAll w qs' := by
  have hindexed := h.coherent.toIndexed
  refine ⟨?_, ?_, ?_, ?_, ?_⟩
  · intro id r hr
    exact hindexed.isPlain hr
  · intro ip id hget
    exact hindexed.isPlain_key hget
  · intro id id' r r' hr hr' hip
    exact hindexed.id_unique_canonical hr hr' hip
  · intro e source
    exact ⟨primarySlot_canonical c e source, triedSlot_canonical c e,
      fun b => newSlot_canonical c b e⟩
  · intro σ w _ _ qs qs' hqs
    exact serveAll_eq_of_canonical c hqs

/-- For instance, a peer is announced in the embedded notation, with a flow label and a
scope, by a source in that notation. Its record is plain, and reaching it under either
spelling is the same. -/
theorem one_spelling_after_embedded_learn : ∃ (c : Cache) (s : SplitMix) (r : Record),
    (Operation.learn
      (.ofEndpoint (.v6 (Ipv4.embed ⟨8, 8, 8, 8⟩) 8333 7 5) (.ofSecs 1700000000))
      (.v6 (Ipv4.embed ⟨9, 9, 9, 9⟩)) 0 (.ofSecs 1700000000)).perform Rat
        (ofKey .standard default) ⟨[], 0⟩ = .ok (c, s) ∧
    c.records[(⟨0⟩ : RecordId)]? = some r ∧ r.endpoint = .v4 ⟨8, 8, 8, 8⟩ 8333 ∧
    r.source = .v4 ⟨9, 9, 9, 9⟩ ∧ r.endpoint.IsPlain ∧ r.source.IsPlain ∧
    (c.serveAll Rat [.confirm (.v6 (Ipv4.embed ⟨8, 8, 8, 8⟩) 8333 1 2) (.ofSecs 1700000000)]
      : Draw SplitMix (List Reply × Cache)) =
        c.serveAll Rat [.confirm (.v4 ⟨8, 8, 8, 8⟩ 8333) (.ofSecs 1700000000)] := by
  have hempty : Reachable (fun _ => True) (ofKey .standard default) := .ofKey .standard default
  obtain ⟨c, s, hrun, hc, hr⟩ := hempty.exists_learn_first Rat
    (.ofEndpoint (.v6 (Ipv4.embed ⟨8, 8, 8, 8⟩) 8333 7 5) (.ofSecs 1700000000))
    (.v6 (Ipv4.embed ⟨9, 9, 9, 9⟩)) 0 (.ofSecs 1700000000) trivial (by decide)
    (⟨[], 0⟩ : SplitMix)
  obtain ⟨hplain, -, -, -, hspelling⟩ := hc.one_spelling
  obtain ⟨hendpoint, hsource⟩ := hplain ⟨0⟩ _ hr
  have hnewcomer : (Announcement.canonical (.ofEndpoint
      (.v6 (Ipv4.embed ⟨8, 8, 8, 8⟩) 8333 7 5) (.ofSecs 1700000000))).endpoint =
        .v4 ⟨8, 8, 8, 8⟩ 8333 := by decide
  have hinformant : (Ip.v6 (Ipv4.embed ⟨9, 9, 9, 9⟩)).canonical = .v4 ⟨9, 9, 9, 9⟩ := by decide
  have hspelt : Endpoint.canonical (.v6 (Ipv4.embed ⟨8, 8, 8, 8⟩) 8333 1 2) =
      Endpoint.canonical (.v4 ⟨8, 8, 8, 8⟩ 8333) := by decide
  refine ⟨c, s, _, hrun, hr, hnewcomer, hinformant, hendpoint, hsource,
    hspelling SplitMix Rat _ _ ?_⟩
  simp only [List.map_cons, List.map_nil, Request.canonical, hspelt]

end Cache

end PeerCache
