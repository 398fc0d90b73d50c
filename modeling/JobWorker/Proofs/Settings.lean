import JobWorker.Config.Worker
import JobWorker.Proofs.RetryPolicy.Document

/-!
# `JobWorker.Proofs.Settings` — the settings of a worker survive JSON

Settings are written as one object and read back from its text, as a value or straight from the text, with nothing
changed but the four spans, which are cut to whole milliseconds. Writing the settings read gives the same text again,
and the two lists may be left out where they are empty.

## Contents
- **Documents.** `WorkerConfig.truncated`, `WorkerConfig.independent`, `WorkerConfig.toJson_takes`,
  `WorkerConfig.decode_members`, `WorkerConfig.read_without`.
- **Survival.** `WorkerConfig.toJson_truncated`, `WorkerConfig.settings_survive`.
-/

namespace JobWorker

open Json

/-! ## Documents -/

namespace WorkerConfig

/-- The settings with their spans cut to whole milliseconds. -/
def truncated (config : WorkerConfig) : WorkerConfig :=
  { config with
    timeout := config.timeout.truncated
    pollInterval := config.pollInterval.truncated
    pollingTimeout := config.pollingTimeout.truncated
    shutdownTimeout := config.shutdownTimeout.truncated }

/-- Each setting has its own field. -/
theorem independent : record.Independent := by
  simp only [Record.Independent, record, List.pairwise_cons, List.forall_mem_cons, List.not_mem_nil,
    List.Pairwise.nil, false_implies, implies_true, and_true]
  repeat' constructor
  all_goals exact Field.commutes_of _ _ _ _ rfl rfl fun _ _ _ => rfl

variable {config : WorkerConfig}

theorem toJson_keys (config : WorkerConfig) : (config.toJson.members.map (·.1)).Nodup := by
  simp [toJson, Value.members]

theorem toJson_readable (hactive : config.maxJobsActive ≤ maxUnsigned64) (hthreads : config.handlerThreads ≤ 255) :
    ∀ m ∈ config.toJson.members, m.2.Readable := by
  have hthreads : config.handlerThreads ≤ maxUnsigned64 := hthreads.trans (by decide)
  simp [toJson, Value.members, readable_text, readable_bool, readable_texts, Duration.readable_toJson,
    readable_nat hactive, readable_nat hthreads]

theorem arranged_members (config : WorkerConfig) : arrangedValues config.toJson.members = config.toJson.members := by
  simp [toJson, Value.members, arrangedValues]

/-- Each member is read straight from its text by its field. -/
theorem toJson_takes (hactive : config.maxJobsActive ≤ maxUnsigned64) (hthreads : config.handlerThreads ≤ 255) :
    record.Takes config.toJson.members := by
  have hactive := (readable_nat hactive).legible
  have hthreads := (readable_nat (hthreads.trans (show 255 ≤ maxUnsigned64 by decide))).legible
  have hspan : ∀ d : Duration, d.toJson.Legible := fun d => d.readable_toJson.legible
  have htexts : ∀ texts : List String, ∀ v ∈ texts.map Value.text, v.Legible ∧ v.depth = 0 := by
    intro texts v hv
    obtain ⟨s, -, rfl⟩ := List.mem_map.mp hv
    exact ⟨trivial, rfl⟩
  simp only [Record.Takes, toJson, Value.members, List.forall_mem_cons, List.not_mem_nil, false_implies, implies_true,
    and_true]
  exact ⟨⟨_, rfl, Field.takes_of _ _ _ trivial rfl⟩, ⟨_, rfl, Field.takes_of _ _ _ trivial rfl⟩,
    ⟨_, rfl, Field.takes_of _ _ _ (hspan _) rfl⟩, ⟨_, rfl, Field.takes_of _ _ _ hactive rfl⟩,
    ⟨_, rfl, Field.takes_of _ _ _ hthreads rfl⟩, ⟨_, rfl, Field.takes_of _ _ _ (hspan _) rfl⟩,
    ⟨_, rfl, Field.takes_of _ _ _ (hspan _) rfl⟩, ⟨_, rfl, Field.takes_of _ _ _ trivial rfl⟩,
    ⟨_, rfl, (Field.takes_listOf _ _ _ (htexts _)).orAbsent⟩, ⟨_, rfl, (Field.takes_listOf _ _ _ (htexts _)).orAbsent⟩,
    _, rfl, Field.takes_of _ _ _ (hspan _) rfl⟩

/-- The settings that the members give in the order of the declaration. -/
theorem decode_members (hactive : config.maxJobsActive ≤ maxUnsigned64) (hthreads : config.handlerThreads ≤ 255) :
    decode (.object config.toJson.members) = .ok config.truncated := by
  have hnumbers : decodeUnsigned maxUnsigned64 .size (.nat config.maxJobsActive) = .ok config.maxJobsActive ∧
      decodeUnsigned 255 (.unsigned 8) (.nat config.handlerThreads) = .ok config.handlerThreads :=
    ⟨decodeUnsigned_nat _ hactive, decodeUnsigned_nat _ hthreads⟩
  refine Record.decode_eq_ok_iff.mpr ⟨?_, ?_⟩
  · simp [toJson, Value.members, Record.storeMembers, record, hnumbers,
      Except.map, bind, Except.bind, truncated]
  · simp [toJson, Value.members, record]

/-- The members that are lists. -/
theorem list_of_mem {m : String × Value} (hm : m ∈ config.toJson.members) :
    (m.1 = "fetch_variables" → m.2 = .texts config.fetchVariables) ∧
      (m.1 = "tenant_ids" → m.2 = .texts config.tenantIds) := by
  simp only [toJson, Value.members, List.mem_cons, List.not_mem_nil, or_false] at hm
  rcases hm with rfl | rfl | rfl | rfl | rfl | rfl | rfl | rfl | rfl | rfl | rfl <;> simp

/-- An empty list may be absent, and is what the record has to begin with. -/
theorem idle_of_empty {dropped : List String} (hdropped : ∀ key ∈ dropped,
      key = "fetch_variables" ∧ config.fetchVariables = [] ∨ key = "tenant_ids" ∧ config.tenantIds = []) :
    ∀ m ∈ config.toJson.members, m.1 ∈ dropped → ∀ field ∈ record.fields, field.name = m.1 →
      field.optional = true ∧ field.store m.2 record.blank = .ok record.blank := by
  intro m hm hmem
  obtain ⟨hfetch, htenants⟩ := list_of_mem hm
  rcases hdropped m.1 hmem with ⟨hkey, hempty⟩ | ⟨hkey, hempty⟩
  · rw [hfetch hkey, hkey, hempty]
    simp [record, Except.map]
  · rw [htenants hkey, hkey, hempty]
    simp [record, Except.map]

/-- Settings are read from their text, as a value and straight from it, also without lists that are empty. -/
theorem read_without (hactive : config.maxJobsActive ≤ maxUnsigned64) (hthreads : config.handlerThreads ≤ 255)
    {dropped : List String} (hdropped : ∀ key ∈ dropped, key = "fetch_variables" ∧ config.fetchVariables = [] ∨
      key = "tenant_ids" ∧ config.tenantIds = []) :
    readText decode (config.toJson.without dropped).render = .ok config.truncated ∧
      record.parse (config.toJson.without dropped).render = .ok config.truncated := by
  have hkeys := toJson_keys config
  have hdecode := decode_members hactive hthreads
  have hidle := idle_of_empty hdropped
  refine ⟨?_, Record.parse_without independent (toJson_takes hactive hthreads) hkeys hdecode hidle⟩
  have harranged : ∀ m ∈ config.toJson.members, m.2.arranged = m.2 := by
    simp [toJson, Value.members]
  refine Record.readText_without independent hkeys (toJson_readable hactive hthreads) ?_ fun m hm => ?_
  · rw [arranged_members]
    exact hdecode
  · rw [harranged m hm]
    exact hidle m hm

/-! ## Survival -/

theorem truncated_eq (h : ∀ d ∈ [config.timeout, config.pollInterval, config.pollingTimeout, config.shutdownTimeout],
    ∃ n ≤ maxUnsigned64, d = .ofMillis n) : config.truncated = config := by
  have hspan : ∀ d ∈ [config.timeout, config.pollInterval, config.pollingTimeout, config.shutdownTimeout],
      d.truncated = d := by
    intro d hd
    obtain ⟨n, hn, rfl⟩ := h d hd
    exact Duration.truncated_ofMillis hn
  simp only [List.forall_mem_cons] at hspan
  obtain ⟨htimeout, hinterval, hpolling, hshutdown, -⟩ := hspan
  rw [truncated, htimeout, hinterval, hpolling, hshutdown]

theorem toJson_truncated (config : WorkerConfig) : config.truncated.toJson = config.toJson := by
  -- field by field: that other settings stay as they are is seen without looking into the spans
  obtain ⟨jobType, workerName, timeout, active, threads, interval, polling, completion, fetch, tenants, shutdown⟩ := config
  simp only [toJson, truncated, Duration.toJson_truncated]

/-- **The settings of a worker survive JSON.** Their text is read, as a value or straight from the text, as the same
settings with each span cut to whole milliseconds, as many as 64 bits can number, so that nothing changes where the spans
are such milliseconds already; the settings read are written as the same text again; and a list that is empty may be left
out of the document. -/
theorem settings_survive (config : WorkerConfig) (hactive : config.maxJobsActive ≤ maxUnsigned64)
    (hthreads : config.handlerThreads ≤ 255) :
    (readText decode config.toJson.render = .ok config.truncated ∧
      record.parse config.toJson.render = .ok config.truncated) ∧
    ((∀ d ∈ [config.timeout, config.pollInterval, config.pollingTimeout, config.shutdownTimeout],
      ∃ n ≤ maxUnsigned64, d = .ofMillis n) → config.truncated = config) ∧
    config.truncated.toJson.render = config.toJson.render ∧
    ∀ dropped : List String, (∀ key ∈ dropped, key = "fetch_variables" ∧ config.fetchVariables = [] ∨
        key = "tenant_ids" ∧ config.tenantIds = []) →
      readText decode (config.toJson.without dropped).render = .ok config.truncated ∧
        record.parse (config.toJson.without dropped).render = .ok config.truncated := by
  refine ⟨?_, truncated_eq, congrArg Value.render (toJson_truncated config), fun dropped hdropped => ?_⟩
  · have hnone : config.toJson.without [] = config.toJson := rfl
    rw [← hnone]
    exact read_without hactive hthreads fun key hkey => absurd hkey List.not_mem_nil
  · exact read_without hactive hthreads hdropped

/-- Settings with a span below the millisecond, the longest span there is, and a name that has to be escaped. -/
def uneven : WorkerConfig :=
  { jobType := "a\"b", workerName := "", timeout := .ofNanos 1500000, pollingTimeout := .longest
    fetchVariables := ["orderId"] }

theorem settings_survive_uneven :
    let read : WorkerConfig := { uneven with timeout := .ofMillis 1, pollingTimeout := .ofMillis maxUnsigned64 }
    readText decode uneven.toJson.render = .ok read ∧ record.parse uneven.toJson.render = .ok read ∧
      readText decode (uneven.toJson.without ["tenant_ids"]).render = .ok read ∧
      record.parse (uneven.toJson.without ["tenant_ids"]).render = .ok read := by
  intro read
  have hcut : uneven.truncated = read := by decide
  obtain ⟨⟨hread, hparse⟩, -, -, hwithout⟩ := settings_survive uneven (by decide) (by decide)
  rw [hcut] at hread hparse hwithout
  refine ⟨hread, hparse, hwithout ["tenant_ids"] fun key hkey => ?_⟩
  exact .inr ⟨List.mem_singleton.mp hkey, rfl⟩

end WorkerConfig

end JobWorker
