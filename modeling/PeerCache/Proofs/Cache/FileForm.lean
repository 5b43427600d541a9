import PeerCache.Proofs.Cache.Load

/-!
# `PeerCache.Proofs.Cache.FileForm`: what stored bytes say

A `StoredCache` is the content of stored bytes before anything is placed: a version, a
key, the new and the tried records in order, and the bucket lists. `StoredCache.toBytes`
is the layout, for any number of bucket lists and with lists that may say anything.

The decoder reads and places in one go. Here the two are taken apart: whatever it
accepts is a layout followed by bytes that it ignores, and what it returns is what the
content leads to (`takes_decode`). All content that can be placed is accepted
(`StoredCache.LeadsTo.reads`), and bytes have one content at most
(`StoredCache.prefixFree_toBytes`).

`StoredCache.LeadsTo` names the stages. First the new records are added, then the tried
ones, and the entries of the bucket lists are followed last.
-/

set_option autoImplicit false

namespace PeerCache

open Decoder

/-- The mark on the number of bucket lists comes off as it was put on. -/
theorem xor_bucketMarker (n : Nat) : n ^^^ bucketMarker ^^^ bucketMarker = n := by
  rw [Nat.xor_assoc, Nat.xor_self, Nat.xor_zero]

/-- The content of stored bytes. -/
structure StoredCache where
  version : Nat
  key : PlacementKey
  new : List StoredRecord
  tried : List StoredRecord
  /-- The bucket lists. An entry names a new record by its place in the file. -/
  lists : List (List Nat)

namespace StoredCache

/-- The bytes, one field after the other. -/
def toBytes (f : StoredCache) : Bytes :=
  Bytes.little 1 f.version ++ (Bytes.little 1 keySize ++ (f.key.bytes ++
    (Bytes.little 4 f.new.length ++ (Bytes.little 4 f.tried.length ++
    (Bytes.little 4 (f.lists.length ^^^ bucketMarker) ++
    (f.new.flatMap StoredRecord.toBytes ++ (f.tried.flatMap StoredRecord.toBytes ++
    f.lists.flatMap Cache.listBytes)))))))

/-- A bucket list whose length and entries fit their fields. -/
def FitsList (l : List Nat) : Prop := l.length < Bytes.span 4 ∧ ∀ entry ∈ l, entry < Bytes.span 4

/-- Every number fits its field, every address is in canonical notation, and the records
are no more than there are slots. -/
structure Fits (f : StoredCache) : Prop where
  version_lt : f.version < Bytes.span 1
  length_new_le : f.new.length ≤ newBucketCount * bucketSize
  length_tried_le : f.tried.length ≤ triedBucketCount * bucketSize
  new_canonical : ∀ s ∈ f.new, s.Canonical
  tried_canonical : ∀ s ∈ f.tried, s.Canonical
  length_lists_lt : f.lists.length < Bytes.span 4
  lists_fit : ∀ l ∈ f.lists, FitsList l

/-- The bucket lists count: version and number of buckets are the ones in use. -/
def Listed (f : StoredCache) : Prop :=
  f.version = formatVersion ∧ f.lists.length = newBucketCount

instance (f : StoredCache) : Decidable f.Listed := by unfold Listed; infer_instance

/-- The entries of bucket lists, in the order of reading and each with its bucket. -/
def entriesOf (lists : List (Fin newBucketCount × List Nat)) : List (Fin newBucketCount × Nat) :=
  lists.flatMap fun x => x.2.map (x.1, ·)

/-- The entries of all bucket lists. -/
def entries (f : StoredCache) : List (Fin newBucketCount × Nat) :=
  entriesOf ((List.finRange newBucketCount).zip f.lists)

/-- The stages in which the content is placed, with the number of tried records that are
lost. New records may still be without a slot at the end. -/
def LeadsTo (f : StoredCache) (policy : Policy) (m : Cache) (lost : Nat) : Prop :=
  ∃ c c' : Cache, f.new.foldlM (Cache.loadNew f.Listed) (Cache.ofKey policy f.key) = .ok c ∧
    f.tried.foldlM Cache.loadTried (c, 0) = .ok (c', lost) ∧
    m = if f.Listed then
      f.entries.foldl (fun c x => Cache.loadEntry f.new.length x.1 c x.2) c'
    else c'

end StoredCache

namespace Cache

/-! ### Bucket lists -/

/-- A bucket list is read from its length and its entries. -/
theorem takes_list {β : Type} (step : β → Nat → β) (acc : β) :
    (do fold (.little 4) (fun acc entry => .ok (step acc entry)) (← little 4) acc : Decoder β).Takes
      fun taken acc' => ∃ l : List Nat, taken = listBytes l ∧ StoredCache.FitsList l ∧
        acc' = l.foldl step acc := by
  refine .bind (takes_little 4) fun _ n hn => ?_
  obtain ⟨rfl, hlt⟩ := hn
  have hstep : ∀ (l : List Nat) (m : β) (entry : Nat) (m' : β), m = l.foldl step acc →
      entry < Bytes.span 4 → (.ok (step m entry) : Except StorageError β) = .ok m' →
        m' = (l ++ [entry]).foldl step acc := by
    intro l m entry m' hm _ hm'
    cases hm'
    rw [hm, List.foldl_append]
    rfl
  refine (Takes.fold (takes_little 4) hstep n rfl).mono fun taken acc' h => ?_
  obtain ⟨l, rfl, rfl, hl, hacc'⟩ := h
  exact ⟨l, rfl, ⟨hlt, hl⟩, hacc'⟩

theorem takes_skipBucket : skipBucket.Takes fun taken _ =>
    ∃ l : List Nat, taken = listBytes l ∧ StoredCache.FitsList l :=
  (takes_list (fun _ _ => ()) ()).mono fun _ _ ⟨l, htaken, hfits, _⟩ => ⟨l, htaken, hfits⟩

theorem takes_decodeBucket (newTotal : Nat) (c : Cache) (b : Fin newBucketCount) :
    (decodeBucket newTotal c b).Takes fun taken d => ∃ l : List Nat, taken = listBytes l ∧
      StoredCache.FitsList l ∧ d = l.foldl (loadEntry newTotal b) c :=
  takes_list (loadEntry newTotal b) c

/-- Bucket lists are read one after the other, and their entries are followed in order. -/
theorem takes_buckets (newTotal : Nat) (c : Cache) (bs : List (Fin newBucketCount)) :
    (bs.foldlM (decodeBucket newTotal) c).Takes fun taken d => ∃ lists : List (List Nat),
      lists.length = bs.length ∧ taken = lists.flatMap listBytes ∧
      (∀ l ∈ lists, StoredCache.FitsList l) ∧
      d = (StoredCache.entriesOf (bs.zip lists)).foldl
        (fun c x => loadEntry newTotal x.1 c x.2) c := by
  refine Takes.foldlM (I := fun lists d => d = (StoredCache.entriesOf lists).foldl
    (fun c x => loadEntry newTotal x.1 c x.2) c) (fun lists m b hm => ?_) bs rfl
  refine (takes_decodeBucket newTotal m b).mono fun taken d h => ?_
  obtain ⟨l, htaken, hfits, hd⟩ := h
  refine ⟨l, htaken, hfits, ?_⟩
  rw [hd, hm]
  simp [StoredCache.entriesOf, List.foldl_append, List.foldl_map]

/-- Bucket lists that do not count are read all the same. -/
theorem takes_skipBuckets (n : Nat) : (fold skipBucket (fun _ _ => .ok ()) n ()).Takes
    fun taken _ => ∃ lists : List (List Nat), lists.length = n ∧
      taken = lists.flatMap listBytes ∧ ∀ l ∈ lists, StoredCache.FitsList l := by
  induction n with
  | zero => exact .pure ⟨[], rfl, rfl, nofun⟩
  | succ n ih =>
      refine .bind takes_skipBucket fun _ _ hlist => ?_
      obtain ⟨l, rfl, hl⟩ := hlist
      refine Takes.mono ih fun taken _ hrest => ?_
      obtain ⟨lists, hlength, htaken, hlists⟩ := hrest
      refine ⟨l :: lists, ?_, ?_, ?_⟩
      · rw [List.length_cons, hlength]
      · rw [htaken, List.flatMap_cons]
      · simpa using ⟨hl, hlists⟩

/-- A bucket list is read back, whatever is done with its entries. -/
theorem reads_list {β : Type} (step : β → Nat → β) (acc : β) {l : List Nat}
    (hl : StoredCache.FitsList l) :
    (do fold (.little 4) (fun acc entry => .ok (step acc entry)) (← little 4) acc : Decoder β).Reads
      (listBytes l) (l.foldl step acc) :=
  .bind (reads_little hl.1) (.fold (fun entry hentry => reads_little (hl.2 entry hentry))
    List.foldlM_pure)

/-- Bucket lists are read back one after the other. -/
theorem reads_buckets (newTotal : Nat) (c : Cache) {bs : List (Fin newBucketCount)}
    {lists : List (List Nat)} (hlength : lists.length = bs.length)
    (hlists : ∀ l ∈ lists, StoredCache.FitsList l) :
    (bs.foldlM (decodeBucket newTotal) c).Reads (lists.flatMap listBytes)
      ((StoredCache.entriesOf (bs.zip lists)).foldl
        (fun c x => loadEntry newTotal x.1 c x.2) c) := by
  induction bs generalizing c lists with
  | nil =>
      obtain rfl := List.length_eq_zero_iff.mp hlength
      exact .pure c
  | cons b bs ih =>
      obtain ⟨l, lists, rfl⟩ := List.exists_cons_of_length_eq_add_one hlength
      rw [List.forall_mem_cons] at hlists
      have hrest := ih (l.foldl (loadEntry newTotal b) c) (Nat.succ.inj hlength) hlists.2
      rw [List.foldlM_cons, List.flatMap_cons, List.zip_cons_cons, StoredCache.entriesOf,
        List.flatMap_cons, List.foldl_append, List.foldl_map]
      exact .bind (reads_list (loadEntry newTotal b) c hlists.1) hrest

/-- Bucket lists that do not count are passed over. -/
theorem reads_skipBuckets {lists : List (List Nat)} (hlists : ∀ l ∈ lists, StoredCache.FitsList l) :
    (fold skipBucket (fun _ _ => .ok ()) lists.length ()).Reads (lists.flatMap listBytes) () := by
  induction lists with
  | nil => exact .pure ()
  | cons l lists ih =>
      rw [List.forall_mem_cons] at hlists
      rw [List.flatMap_cons]
      exact .bind (reads_list (fun _ _ => ()) () hlists.1) (ih hlists.2)

/-! ### The whole layout -/

/-- Stored records are read one after the other, and each is handed on at once. -/
theorem takes_records {β : Type} (step : β → StoredRecord → Except StorageError β) (n : Nat)
    (acc : β) : (fold StoredRecord.decode step n acc).Takes fun taken acc' =>
      ∃ l : List StoredRecord, l.length = n ∧ taken = l.flatMap StoredRecord.toBytes ∧
        (∀ s ∈ l, s.Canonical) ∧ l.foldlM step acc = .ok acc' := by
  have hstep : ∀ (l : List StoredRecord) (m : β) (s : StoredRecord) (m' : β),
      l.foldlM step acc = .ok m → s.Canonical → step m s = .ok m' →
        (l ++ [s]).foldlM step acc = .ok m' := by
    intro l m s m' hm _ hm'
    rw [List.foldlM_append, hm]
    show [s].foldlM step m = _
    rw [List.foldlM_cons, hm']
    rfl
  exact Takes.fold StoredRecord.takes_decode hstep n rfl

/-- What the decoder takes off the front is the layout of some content, and what it
returns is what the content leads to. -/
theorem takes_decode (policy : Policy) : (decode policy).Takes fun taken x =>
    ∃ f : StoredCache, f.Fits ∧ taken = f.toBytes ∧ f.LeadsTo policy x.1 x.2 := by
  refine .bind (takes_little 1) fun _ version hversion => ?_
  refine .bind (takes_little 1) fun _ size hsize => ?_
  split
  · exact .throw_bind _ _
  next hsizeEq =>
  refine .bind (takes_take keySize) fun keyTaken keyBytes hkey => ?_
  refine .bind (takes_little 4) fun _ newTotal hnewTotal => ?_
  refine .bind (takes_little 4) fun _ triedTotal htriedTotal => ?_
  refine .bind (takes_little 4) fun _ marked hmarked => ?_
  dsimp only
  split
  · exact .throw_bind _ _
  next hfits =>
  refine .bind (takes_records _ _ _) fun _ c hnew => ?_
  refine .bind (takes_records _ _ _) fun _ x htried => ?_
  obtain ⟨rfl, hversion⟩ := hversion
  obtain ⟨rfl, -⟩ := hsize
  obtain ⟨rfl, hkey⟩ := hkey
  obtain ⟨rfl, hnewTotal⟩ := hnewTotal
  obtain ⟨rfl, htriedTotal⟩ := htriedTotal
  obtain ⟨rfl, hmarked⟩ := hmarked
  obtain ⟨new, rfl, rfl, hnewCanonical, hnewRun⟩ := hnew
  obtain ⟨tried, rfl, rfl, htriedCanonical, htriedRun⟩ := htried
  obtain rfl : size = keySize := Decidable.not_not.mp hsizeEq
  have hkeyEq : (PlacementKey.ofBytes? keyTaken).getD default = ⟨keyTaken, hkey⟩ := by
    rw [PlacementKey.ofBytes?, dif_pos hkey, Option.getD_some]
  rw [hkeyEq] at hnewRun
  -- Whatever the bucket lists are, the rest of the content is known.
  have hform : ∀ lists : List (List Nat), lists.length = marked ^^^ bucketMarker →
      (∀ l ∈ lists, StoredCache.FitsList l) →
        (⟨version, ⟨keyTaken, hkey⟩, new, tried, lists⟩ : StoredCache).Fits := by
    intro lists hlength hlists
    rw [not_or, Nat.not_lt, Nat.not_lt] at hfits
    refine ⟨hversion, hfits.1, hfits.2, hnewCanonical, htriedCanonical, ?_, hlists⟩
    show lists.length < _
    rw [hlength]
    exact Nat.xor_lt_two_pow (n := 32) hmarked (by decide)
  have hmarked' : ∀ lists : List (List Nat), lists.length = marked ^^^ bucketMarker →
      lists.length ^^^ bucketMarker = marked := by
    intro lists hlength
    rw [hlength, xor_bucketMarker]
  split
  · next hlisted =>
    refine .bind (takes_buckets new.length x.1 (List.finRange newBucketCount)) fun _ d hd => ?_
    obtain ⟨lists, hlength, rfl, hlists, hd⟩ := hd
    rw [List.length_finRange, ← hlisted.2] at hlength
    have hcounts : (⟨version, ⟨keyTaken, hkey⟩, new, tried, lists⟩ : StoredCache).Listed :=
      ⟨hlisted.1, hlength.trans hlisted.2⟩
    refine .pure ⟨_, hform lists hlength hlists, ?_, c, x.1, ?_, htriedRun, ?_⟩
    · simp [StoredCache.toBytes, hmarked' lists hlength]
    · rw [← hnewRun, decide_eq_true hcounts, decide_eq_true hlisted]
    · rw [if_pos hcounts]
      exact hd
  · next hlisted =>
    refine .bind (takes_skipBuckets _) fun _ _ hskipped => ?_
    obtain ⟨lists, hlength, rfl, hlists⟩ := hskipped
    have hcounts : ¬ (⟨version, ⟨keyTaken, hkey⟩, new, tried, lists⟩ : StoredCache).Listed := by
      rintro ⟨hversionEq, hcount⟩
      exact hlisted ⟨hversionEq, hlength.symm.trans hcount⟩
    refine .pure ⟨_, hform lists hlength hlists, ?_, c, x.1, ?_, htriedRun, ?_⟩
    · simp [StoredCache.toBytes, hmarked' lists hlength]
    · rw [← hnewRun, decide_eq_false hcounts, decide_eq_false hlisted]
    · rw [if_neg hcounts]

end Cache

namespace StoredCache

variable {f : StoredCache}

/-- The layout of content that can be placed is accepted, whatever follows it. -/
theorem LeadsTo.reads {policy : Policy} {m : Cache} {lost : Nat} (h : f.LeadsTo policy m lost)
    (hfits : f.Fits) : (Cache.decode policy).Reads f.toBytes (m, lost) := by
  obtain ⟨c, c', hnew, htried, rfl⟩ := h
  have hnewLe := hfits.length_new_le
  have htriedLe := hfits.length_tried_le
  have hkey : (PlacementKey.ofBytes? f.key.bytes).getD default = f.key := by
    rw [PlacementKey.ofBytes?, dif_pos f.key.length_bytes, Option.getD_some]
  rw [toBytes]
  refine .bind (reads_little hfits.version_lt) ?_
  refine .bind (reads_little (by decide)) ?_
  rw [if_neg (by simp)]
  refine .bind (reads_take f.key.length_bytes) ?_
  refine .bind (reads_little (Nat.lt_of_le_of_lt hnewLe (by decide))) ?_
  refine .bind (reads_little (Nat.lt_of_le_of_lt htriedLe (by decide))) ?_
  refine .bind (reads_little (Nat.xor_lt_two_pow (n := 32) hfits.length_lists_lt (by decide))) ?_
  dsimp only
  rw [if_neg (by omega), xor_bucketMarker, hkey]
  have hnews := fun s hs => StoredRecord.reads_decode (hfits.new_canonical s hs)
  have htrieds := fun s hs => StoredRecord.reads_decode (hfits.tried_canonical s hs)
  refine .bind (.fold hnews hnew) (.bind (.fold htrieds htried) ?_)
  by_cases hlisted : f.Listed
  · have hcounts : f.version = formatVersion ∧ f.lists.length = newBucketCount := hlisted
    rw [if_pos hlisted, if_pos hcounts, ← List.append_nil (f.lists.flatMap _)]
    refine .bind (Cache.reads_buckets f.new.length c' ?_ hfits.lists_fit) (.pure _)
    rw [List.length_finRange, hlisted.2]
  · have hcounts : ¬ (f.version = formatVersion ∧ f.lists.length = newBucketCount) := hlisted
    rw [if_neg hlisted, if_neg hcounts, ← List.append_nil (f.lists.flatMap _)]
    exact .bind (Cache.reads_skipBuckets hfits.lists_fit) (.pure _)

/-! ### One content -/

theorem prefixFree_records (n : Nat) : PrefixFree (List.flatMap StoredRecord.toBytes) fun l =>
    l.length = n ∧ ∀ s ∈ l, s.Canonical :=
  (Reads.prefixFree fun _ hs => StoredRecord.reads_decode hs).flatMap n

theorem prefixFree_listBytes : PrefixFree Cache.listBytes FitsList := by
  refine Reads.prefixFree (d := do
    fold (.little 4) (fun acc entry => .ok (acc ++ [entry])) (← little 4) []) fun l hl => ?_
  have hread := Cache.reads_list (fun acc entry => acc ++ [entry]) [] hl
  rwa [List.foldl_append_eq_append, ← List.flatMap_def, List.flatMap_singleton'] at hread

/-- Bytes start with the layout of one content at most. -/
theorem prefixFree_toBytes : PrefixFree StoredCache.toBytes Fits := by
  intro f g rest rest' hf hg hbytes
  have hspan : ∀ {n : Nat}, n ≤ newBucketCount * bucketSize → n < Bytes.span 4 := fun hle =>
    Nat.lt_of_le_of_lt hle (by decide)
  have hspan' : ∀ {n : Nat}, n ≤ triedBucketCount * bucketSize → n < Bytes.span 4 := fun hle =>
    Nat.lt_of_le_of_lt hle (by decide)
  have hmarked : ∀ {n : Nat}, n < Bytes.span 4 → n ^^^ bucketMarker < Bytes.span 4 := fun hlt =>
    Nat.xor_lt_two_pow (n := 32) hlt (by decide)
  simp only [toBytes, List.append_assoc] at hbytes
  -- One field after the other. The counts come before the records that they count.
  obtain ⟨hversion, hbytes⟩ := prefixFree_little 1 _ _ _ _ hf.version_lt hg.version_lt hbytes
  have hbytes := List.append_cancel_left hbytes
  obtain ⟨hkey, hbytes⟩ := List.append_inj hbytes (f.key.length_bytes.trans g.key.length_bytes.symm)
  obtain ⟨hnew, hbytes⟩ := prefixFree_little 4 _ _ _ _ (hspan hf.length_new_le)
    (hspan hg.length_new_le) hbytes
  obtain ⟨htried, hbytes⟩ := prefixFree_little 4 _ _ _ _ (hspan' hf.length_tried_le)
    (hspan' hg.length_tried_le) hbytes
  obtain ⟨hlists, hbytes⟩ := prefixFree_little 4 _ _ _ _ (hmarked hf.length_lists_lt)
    (hmarked hg.length_lists_lt) hbytes
  obtain ⟨hnewEq, hbytes⟩ := prefixFree_records _ _ _ _ _ ⟨hnew, hf.new_canonical⟩
    ⟨rfl, hg.new_canonical⟩ hbytes
  obtain ⟨htriedEq, hbytes⟩ := prefixFree_records _ _ _ _ _ ⟨htried, hf.tried_canonical⟩
    ⟨rfl, hg.tried_canonical⟩ hbytes
  have hcount : f.lists.length = g.lists.length := by
    rw [← xor_bucketMarker f.lists.length, hlists, xor_bucketMarker]
  obtain ⟨hlistsEq, hrest⟩ := prefixFree_listBytes.flatMap _ _ _ _ _ ⟨hcount, hf.lists_fit⟩
    ⟨rfl, hg.lists_fit⟩ hbytes
  refine ⟨?_, hrest⟩
  obtain ⟨version, ⟨bytes, hlength⟩, new, tried, lists⟩ := f
  cases hversion
  cases hkey
  cases hnewEq
  cases htriedEq
  cases hlistsEq
  rfl

/-- The content of bytes: they start with its layout. -/
def StoredIn (f : StoredCache) (data : Bytes) : Prop :=
  f.Fits ∧ ∃ rest : Bytes, data = f.toBytes ++ rest

theorem StoredIn.unique {g : StoredCache} {data : Bytes} (hf : f.StoredIn data)
    (hg : g.StoredIn data) : g = f := by
  obtain ⟨hf, rest, rfl⟩ := hf
  obtain ⟨hg, rest', hbytes⟩ := hg
  exact (prefixFree_toBytes g f rest' rest hg hf hbytes.symm).1

end StoredCache

end PeerCache
