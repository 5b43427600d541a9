import PeerCache.Proofs.Cache.LoadLosses
import PeerCache.Proofs.Cache.LoadOrder
import PeerCache.Proofs.Cache.SavedForm

/-!
# `PeerCache.Proofs.Cache.Delimited`: where stored bytes end

The bytes of a cache say themselves where they end. If the end is cut off, however
little, a load finds that the bytes run out, and it finds nothing else wrong first. If
anything is added, a load does not see it.

Both follow from `stable_decode`. The decoder takes its bytes from the front and
decides on what it has taken. It cannot tell a part from the whole until it needs the
next byte, so what it makes of a part it would have to make of the whole too. And it
reads the bytes of a cache to the end (`Coherent.exists_run_encode`), so there is no part
on which it could have stopped.

A cache in whose history a time zero stands is stored as another one
(`Cache.saved`). It has the same bytes, so the statement needs no assumption on times.
-/

set_option autoImplicit false

namespace PeerCache

open Decoder

/-! ### The decoders are stable -/

namespace StoredRecord

theorem stable_decodeIp : decodeIp.Stable := by
  refine .bind (stable_take 16) fun bytes => ?_
  split
  · exact .pure _
  · exact .throw _

theorem stable_decode : StoredRecord.decode.Stable := by
  refine .bind stable_decodeIp fun ip => ?_
  refine .bind (stable_little 2) fun port => ?_
  refine .bind (stable_little 8) fun services => ?_
  refine .bind (stable_little 8) fun seen => ?_
  refine .bind (stable_little 4) fun version => ?_
  refine .bind stable_decodeIp fun source => ?_
  refine .bind (stable_little 8) fun lastSuccess => ?_
  refine .bind (stable_little 8) fun lastTry => ?_
  exact .bind (stable_little 4) fun attempts => .pure _

end StoredRecord

namespace Cache

theorem stable_skipBucket : skipBucket.Stable :=
  .bind (stable_little 4) fun n => .fold (stable_little 4) _ n ()

theorem stable_decodeBucket (newTotal : Nat) (c : Cache) (b : Fin newBucketCount) :
    (decodeBucket newTotal c b).Stable :=
  .bind (stable_little 4) fun n => .fold (stable_little 4) _ n c

/-- What the decoder of a cache has decided does not change when more bytes come. -/
theorem stable_decode (policy : Policy) : (decode policy).Stable := by
  refine .bind (stable_little 1) fun version => ?_
  refine .bind (stable_little 1) fun size => ?_
  split
  · exact .throw_bind _ _
  refine .bind (stable_take keySize) fun keyBytes => ?_
  refine .bind (stable_little 4) fun newTotal => ?_
  refine .bind (stable_little 4) fun triedTotal => ?_
  refine .bind (stable_little 4) fun marked => ?_
  dsimp only
  split
  · exact .throw_bind _ _
  refine .bind (.fold StoredRecord.stable_decode _ newTotal _) fun c => ?_
  refine .bind (.fold StoredRecord.stable_decode _ triedTotal _) fun x => ?_
  split
  · exact .bind (.foldlM (stable_decodeBucket newTotal) _ x.1) fun c => .pure _
  · exact .bind (.fold stable_skipBucket _ _ ()) fun _ => .pure _

/-! ### Too few bytes, and too many -/

variable {c : Cache}

/-- The bytes of a coherent cache are read to the end. -/
theorem Coherent.exists_run_encode (h : Coherent ∅ ∅ c) (policy : Policy) :
    ∃ x : Cache × Nat, (decode policy).run c.encode = .ok (x, []) := by
  obtain ⟨d, hreads, -⟩ := reads_decode h.saved c.every_dated_saved policy
  have hall := hreads []
  rw [List.append_nil, encode_saved] at hall
  exact ⟨(d, 0), hall⟩

/-- A part of the bytes of a coherent cache is refused, because the bytes run out. -/
theorem Coherent.ofBytes_of_part (h : Coherent ∅ ∅ c) (policy : Policy) (order : RemovalOrder)
    {part : Bytes} (hpart : part <+: c.encode) (hne : part ≠ c.encode) :
    ofBytes policy order part = .ok (.error .truncated) := by
  obtain ⟨x, hrun⟩ := h.exists_run_encode policy
  have hshort : (decode policy).run part = .error .truncated :=
    (stable_decode policy).truncated_of_part hrun hpart hne
  rw [ofBytes, hshort]
  rfl

/-- Bytes that are accepted are accepted with the same result when more bytes follow. -/
theorem ofBytes_append {policy : Policy} {order : RemovalOrder} {data : Bytes} {d : Cache}
    {report : LoadReport} (h : ofBytes policy order data = .ok (.ok (d, report))) (more : Bytes) :
    ofBytes policy order (data ++ more) = .ok (.ok (d, report)) := by
  obtain ⟨m, lost, rest, hrun, rfl, hdelete, hd, -⟩ := exists_run_of_ofBytes h
  exact ofBytes_of_run ((stable_decode policy).append hrun more) hdelete hd.sound.audit

variable {σ : Type} [RandomSource σ] {allowed : Operation → Prop}

/-- A load of the bytes of a reachable cache that lack even one byte at the end reports that
the bytes run out, and leaves an empty cache under another key. A load that succeeds comes
to the same report and the same cache when any bytes follow, in every cache with the same
policy. If the records without slots are removed in another order, only the sampling order
of that cache is another. -/
theorem Reachable.encode_self_delimiting (h : Reachable allowed c) (c₀ : Cache)
    (order : RemovalOrder) (s : σ) :
    (∀ part : Bytes, part <+: c.encode → part ≠ c.encode →
      ∃ (key : PlacementKey) (s' : σ), Draw.key s = .ok (key, s') ∧
        c₀.load order part s = .ok ((.error .truncated, Cache.ofKey c₀.policy key), s')) ∧
    (∀ (data : Bytes) (report : LoadReport) (d : Cache) (s' : σ),
      c₀.load order data s = .ok ((.ok report, d), s') →
        ∀ (more : Bytes) (c₁ : Cache) (t : σ), c₁.policy = c₀.policy →
          c₁.load order (data ++ more) t = .ok ((.ok report, d), t) ∧
          ∀ order' : RemovalOrder, ∃ d' : Cache,
            c₁.load order' (data ++ more) t = .ok ((.ok report, d'), t) ∧ Reordered d d') := by
  constructor
  · intro part hpart hne
    have hrefused := h.coherent.ofBytes_of_part c₀.policy order hpart hne
    exact ⟨_, _, rfl, load_of_error hrefused rfl⟩
  · intro data report d s' hload more c₁ t hpolicy
    have haccepted := ofBytes_append (ofBytes_of_load hload) more
    rw [← hpolicy] at haccepted
    refine ⟨load_of_ok haccepted t, fun order' => ?_⟩
    obtain ⟨d', haccepted', hreordered⟩ := ofBytes_reordered haccepted order'
    exact ⟨d', load_of_ok haccepted' t, hreordered⟩

/-- For instance, the bytes of a cache that has learnt of one peer, without the last byte
and with one byte too many. -/
theorem self_delimiting_after_learn : ∃ (c : Cache) (s : SplitMix),
    (Operation.learn (.ofEndpoint (.ofIp (.v4 ⟨8, 8, 8, 8⟩) 8333) .zero)
      (.v4 ⟨9, 9, 9, 9⟩) 0 .zero).perform Rat (ofKey .standard default) ⟨[], 0⟩ = .ok (c, s) ∧
    (∃ (key : PlacementKey) (s' : SplitMix),
      (ofKey .testing default).load .ascending c.encode.dropLast s
        = .ok ((.error .truncated, ofKey .testing key), s')) ∧
    ∃ (report : LoadReport) (d : Cache),
      (ofKey .testing default).load .ascending c.encode s = .ok ((.ok report, d), s) ∧
      (ofKey .testing default).load .ascending (c.encode ++ [255]) s
        = .ok ((.ok report, d), s) := by
  have hempty : Reachable (fun _ => True) (ofKey .standard default) := .ofKey .standard default
  obtain ⟨c, s, hrun, hc⟩ := hempty.exists_step Rat (.learn _ _ _ _) trivial (⟨[], 0⟩ : SplitMix)
  obtain ⟨hpart, hmore⟩ := hc.encode_self_delimiting (ofKey .testing default) .ascending s
  have hne : c.encode.dropLast ≠ c.encode := by
    intro hsame
    have hlength := congrArg List.length hsame
    simp [encode] at hlength
  obtain ⟨key, s', -, hshort⟩ := hpart _ (List.dropLast_prefix c.encode) hne
  obtain ⟨d, hload, -⟩ := hc.coherent.exists_load (ofKey .testing default) .ascending s
  exact ⟨c, s, hrun, ⟨key, s', hshort⟩, _, d, hload, (hmore _ _ d s hload [255] _ s rfl).1⟩

end Cache

end PeerCache
