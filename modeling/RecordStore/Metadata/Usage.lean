import RecordStore.Metadata.Failures

/-!
# Metadata.Usage — the accounting of every run

What every run of fresh commands keeps: usage rows that are the recount of their buckets, counters that
are their sums, and no subtraction that underflows.
-/

namespace RecordStore.Metadata

open RecordStore.Lib RecordStore.Core Tx

variable {s : Catalog}

/-- A usage row is the recount of its bucket. -/
structure UsageExact (s : Catalog) (b : BucketId) (u : BucketUsage) : Prop where
  currentObjects : u.currentObjects.toNat = s.objects.countOf fun m => m.bucketId = b
  logicalBytes : u.logicalBytes.toNat = s.objects.sumOver (fun m => m.bucketId = b) fun m => m.size.toNat
  versions : u.versions.toNat = s.versions.countOf fun r => r.bucketId = b
  versionBytes : u.versionBytes.toNat =
    s.versions.sumOver (fun r => r.bucketId = b) fun r => (sizeOf? r.asObject).toNat
  multipartBytes : u.multipartBytes.toNat =
    s.parts.sumOver (fun p => (s.multipart[p.uploadId.bytes]?).any fun up => up.bucketId = b) fun p => p.size.toNat

/-- The sum of a quantity over the usage rows of all buckets. -/
def overBuckets (s : Catalog) (f : BucketUsage → UInt64) : Nat :=
  (s.buckets.rows.map fun b => (f (s.readBucketUsage b.id)).toNat).sum

/-- The global counters are the sums over all buckets. -/
structure CountersExact (s : Catalog) : Prop where
  objects : (s.readCounter objectCount).toNat = overBuckets s (·.currentObjects)
  logical : (s.readCounter logicalBytes).toNat = overBuckets s (·.logicalBytes)
  versions : (s.readCounter versionCount).toNat = overBuckets s (·.versions)
  versionBytes : (s.readCounter versionBytes).toNat = overBuckets s (·.versionBytes)
  multipart : (s.readCounter multipartBytes).toNat = overBuckets s (·.multipartBytes)
  buckets : (s.readCounter bucketCount).toNat = s.buckets.rows.length
  physical : s.readCounter physicalBytes = s.readCounter Metadata.versionBytes

/-- Usage rows and bucket records stand under the same keys. -/
theorem WF.usageTotal_eq (h : WF s) (m : Meter) : usageTotal s.bucketUsage m = overBuckets s m.of := by
  have hrow : ∀ (t : Table Bytes BucketUsage) (r : Bytes × BucketUsage), r ∈ t.toList →
      (m.of r.2).toNat = (m.of ((t[r.1]?).getD .zero)).toNat := by
    rintro t ⟨k, u⟩ hr
    rw [Std.ExtTreeMap.mem_toList_iff_getElem?_eq_some.mp hr, Option.getD_some]
  have hbucket : ∀ r ∈ s.buckets.toList,
      (m.of (s.readBucketUsage r.2.id)).toNat = (m.of ((s.bucketUsage[r.1]?).getD .zero)).toNat := by
    rintro ⟨k, b⟩ hr
    have hk := (h.buckets.bucket k b (Std.ExtTreeMap.mem_toList_iff_getElem?_eq_some.mp hr)).1
    simp only [hk, Catalog.readBucketUsage]
  calc usageTotal s.bucketUsage m
      = (s.bucketUsage.toList.map fun r => (m.of r.2).toNat).sum := by
        unfold usageTotal
        rw [Table.sumOver_eq_sum_share]
        rfl
    _ = ((s.bucketUsage.toList.map Prod.fst).map fun k =>
          (m.of ((s.bucketUsage[k]?).getD .zero)).toNat).sum := by
        rw [List.map_map, List.map_congr_left (hrow s.bucketUsage)]
        rfl
    _ = ((s.buckets.toList.map Prod.fst).map fun k =>
          (m.of ((s.bucketUsage[k]?).getD .zero)).toNat).sum :=
        ((Table.keys_perm h.usage).map _).sum_eq
    _ = overBuckets s m.of := by
        unfold overBuckets Table.rows
        rw [List.map_map, List.map_map]
        exact congrArg List.sum (List.map_congr_left fun r hr => (hbucket r hr).symm)

theorem Sound.usageExact (h : Sound s) (b : BucketId) : UsageExact s b (s.readBucketUsage b) :=
  ⟨h.accounted.bucket b .objects, h.accounted.bucket b .logical, h.accounted.bucket b .versions,
    h.accounted.bucket b .versionBytes, h.accounted.bucket b .multipart⟩

theorem Sound.countersExact (h : Sound s) : CountersExact s := by
  have htotal : ∀ m : Meter, countIn s.counters m.counter = overBuckets s m.of :=
    fun m => (h.accounted.total m).trans (h.wf.usageTotal_eq m)
  refine ⟨htotal .objects, htotal .logical, htotal .versions, htotal .versionBytes, htotal .multipart, ?_, ?_⟩
  · have hb := h.accounted.buckets
    rwa [Table.countOf, List.filter_true] at hb
  · exact UInt64.toNat.inj h.accounted.physical

/-- In every run of commands with fresh version identifiers the accounting is exact, and the next
command, whatever it is, does not underflow in a build that checks. -/
theorem usage_accounting_exact (env : Env) (cmds : List MetadataCommand) (hf : FreshVersions cmds) :
    (∀ b ∈ (run env cmds).buckets.rows, ∃ u, (run env cmds).bucketUsage[bucketKey b.id]? = some u ∧
      UsageExact (run env cmds) b.id u) ∧
    CountersExact (run env cmds) ∧
    ∀ c, ¬ Fails (applyCommandTx { env with overflowChecks := true } c) (run env cmds)
      (.panicked .subtract) := by
  obtain ⟨hs, -⟩ := sound_run env cmds hf
  refine ⟨?_, hs.countersExact, ?_⟩
  · intro b hb
    obtain ⟨k, hk⟩ := Table.mem_rows.mp hb
    obtain ⟨rfl, -⟩ := hs.wf.buckets.bucket k b hk
    exact ⟨_, hs.wf.usageRow hk, hs.usageExact b.id⟩
  · intro c hfail
    exact avoids_applyCommandTx hs c _ hfail rfl

theorem usage_accounting_exact_overwrite :
    CountersExact (run Sample.env Sample.overwrite) ∧
      (run Sample.env Sample.overwrite).readCounter logicalBytes = 7 :=
  ⟨(usage_accounting_exact Sample.env Sample.overwrite (by decide)).2.1, by decide⟩

end RecordStore.Metadata
