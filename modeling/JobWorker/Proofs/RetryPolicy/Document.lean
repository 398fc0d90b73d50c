import JobWorker.Config.Client
import JobWorker.Proofs.Backoff.Exact
import JobWorker.Proofs.Json.RecordReader

/-!
# `JobWorker.Proofs.RetryPolicy.Document` — which retry policies survive JSON

A policy is built from the standard one by calls of its setters. Whatever numbers these are given, the coefficient is
at least one in the end; the jitter lies between zero and one unless it was last set to *not a number*, which is kept.
Two of the policies that can be built do not survive JSON: an infinite coefficient and a jitter that is no number are
both written as `null`, and `null` is refused where a number is asked for. All others are given back by their texts,
alone and inside a configuration, read as a value or straight from the text.

## Contents
- **Spans.** `Duration.truncated`, `Json.decodeMillis_toJson`, `Duration.toJson_truncated`.
- **Ranges.** `Extended.max_one_spec`, `Extended.clamp_unit_spec`.
- **Setters.** `RetryPolicy.Setting`, `RetryPolicy.built`, `RetryPolicy.lastCoefficient`, `RetryPolicy.lastJitter`,
  `RetryPolicy.Sound`, `RetryPolicy.sound_built`.
- **Documents.** `Json.shown`, `RetryPolicy.shownMembers`, `RetryPolicy.Sound.survives`, `RetryPolicy.Sound.lost`,
  `ClientConfig.survives`, `ClientConfig.lost`.
- **Survival.** `RetryPolicy.built_survives_iff`.
-/

namespace JobWorker

open Json

/-! ## Spans -/

namespace Duration

/-- A span cut to whole milliseconds, of which 64 bits have to hold the number. -/
def truncated (d : Duration) : Duration := .ofMillis (min d.millis maxUnsigned64)

theorem millis_ofMillis {n : Nat} (h : n ≤ maxUnsigned64) : (ofMillis n).millis = n := by
  rw [millis, nanos_ofMillis h]
  exact Nat.mul_div_cancel n (by decide)

theorem truncated_ofMillis {n : Nat} (h : n ≤ maxUnsigned64) : (ofMillis n).truncated = ofMillis n := by
  rw [truncated, millis_ofMillis h, Nat.min_eq_left h]

theorem toJson_truncated (d : Duration) : d.truncated.toJson = d.toJson := by
  have hcap : min d.millis maxUnsigned64 ≤ maxUnsigned64 := Nat.min_le_right _ _
  rw [toJson, toJson, millisUpTo, millisUpTo, truncated, millis_ofMillis hcap, Nat.min_eq_left hcap]

theorem readable_toJson (d : Duration) : d.toJson.Readable :=
  readable_nat (Nat.min_le_right _ _)

@[simp] theorem arranged_toJson (d : Duration) : d.toJson.arranged = d.toJson := rfl

end Duration

@[simp] theorem Json.decodeMillis_toJson (d : Duration) : decodeMillis d.toJson = .ok d.truncated := by
  have hcap : d.millisUpTo maxUnsigned64 ≤ maxUnsigned64 := Nat.min_le_right _ _
  rw [Json.decodeMillis, Duration.toJson, decodeWide, decodeUnsigned_nat _ hcap]
  rfl

/-! ## Ranges -/

namespace Extended

variable {x y : Extended}

/-- The greater of a number and one is at least one, and infinite only where the number is. -/
theorem max_one_spec (x : Extended) :
    le one (x.max one) = true ∧ (x.max one = .infinity false ↔ x = .infinity false) ∧
      (x.max one ≠ .infinity false → (x.max one).toRat?.isSome = true) := by
  by_cases hx : x = .infinity false
  · subst hx
    decide +kernel
  · obtain ⟨F, hone, hF⟩ := Backoff.exists_saneFactor hx
    replace hF : x.max one = finite F := hF
    rw [hF, one, le_finite, decide_eq_true hone]
    refine ⟨rfl, ⟨fun h => ?_, fun h => absurd h hx⟩, fun _ => rfl⟩
    cases h

/-- What is kept between zero and one lies there, unless it is no number. -/
theorem clamp_unit_spec (x : Extended) :
    (x.clamp zero one = .nan ↔ x = .nan) ∧
      (x ≠ .nan → (le zero (x.clamp zero one) = true ∧ le (x.clamp zero one) one = true) ∧
        (x.clamp zero one).toRat?.isSome = true) := by
  cases x with
  | nan => decide +kernel
  | infinity negative => cases negative <;> decide +kernel
  | negativeZero => decide +kernel
  | finite q =>
      rw [zero, one, clamp_finite zero_le_one, le_finite, le_finite, decide_eq_true (le_max_left _ _),
        decide_eq_true (max_le zero_le_one (min_le_right _ _))]
      refine ⟨⟨?_, ?_⟩, fun _ => ⟨⟨rfl, rfl⟩, rfl⟩⟩
      all_goals
        intro h
        cases h

theorem isDouble_one : one.IsDouble := by
  show Binary64.round 1 = finite 1
  decide +kernel

theorem IsDouble.max (hx : x.IsDouble) (hy : y.IsDouble) : (x.max y).IsDouble := by
  unfold Extended.max
  split
  · exact hy
  · exact hx
  · split
    · exact hy
    · exact hx

theorem IsDouble.clamp (hx : x.IsDouble) : (x.clamp zero one).IsDouble := by
  have hraised : (if x.lt zero then zero else x).IsDouble := by
    split
    · exact (rfl : Binary64.round 0 = finite 0)
    · exact hx
  unfold Extended.clamp
  generalize (if x.lt zero then zero else x) = raised at hraised
  dsimp only
  split
  · exact isDouble_one
  · exact hraised

end Extended

/-! ## Setters -/

namespace RetryPolicy

/-- A call of one of the setters. -/
inductive Setting where
  | initialInterval (d : Duration)
  | maxInterval (d : Duration)
  | coefficient (x : Extended)
  | jitter (x : Extended)

/-- Whether an argument is one that a setter can be given and a document can hold: a double, or milliseconds of which 64
bits hold the number. -/
def Setting.Admissible : Setting → Prop
  | .initialInterval d => ∃ n ≤ maxUnsigned64, d = .ofMillis n
  | .maxInterval d     => ∃ n ≤ maxUnsigned64, d = .ofMillis n
  | .coefficient x     => x.IsDouble
  | .jitter x          => x.IsDouble

/-- A policy after a call. -/
def set (p : RetryPolicy) : Setting → RetryPolicy
  | .initialInterval d => p.withInitialInterval d
  | .maxInterval d     => p.withMaxInterval d
  | .coefficient x     => p.withCoefficient x
  | .jitter x          => p.withJitter x

/-- The policy that calls one after another make of the standard one. -/
def built (calls : List Setting) : RetryPolicy := calls.foldl set standard

/-- The coefficient that was set last. -/
def lastCoefficient (calls : List Setting) : Option Extended :=
  calls.foldl (fun last call => match call with
    | .coefficient x => some x
    | _              => last) none

/-- The jitter that was set last. -/
def lastJitter (calls : List Setting) : Option Extended :=
  calls.foldl (fun last call => match call with
    | .jitter x => some x
    | _         => last) none

/-- What the setters keep up: the coefficient is at least one, and the jitter lies between zero and one unless it is no
number; all numbers are doubles, and all spans whole milliseconds. -/
structure Sound (p : RetryPolicy) : Prop where
  initialInterval : ∃ n ≤ maxUnsigned64, p.initialInterval = .ofMillis n
  maxInterval : ∃ n ≤ maxUnsigned64, p.maxInterval = .ofMillis n
  coefficient_double : p.coefficient.IsDouble
  one_le : Extended.le .one p.coefficient = true
  coefficient_finite : p.coefficient ≠ .infinity false → p.coefficient.toRat?.isSome = true
  jitter_double : p.jitter.IsDouble
  jitter_within : p.jitter ≠ .nan →
    (Extended.le .zero p.jitter = true ∧ Extended.le p.jitter .one = true) ∧ p.jitter.toRat?.isSome = true

theorem sound_standard : standard.Sound where
  initialInterval := ⟨50, by decide, rfl⟩
  maxInterval := ⟨5000, by decide, rfl⟩
  coefficient_double := Binary64.isDouble_round _
  one_le := by decide +kernel
  coefficient_finite _ := by decide +kernel
  jitter_double := Binary64.isDouble_round _
  jitter_within _ := by decide +kernel

theorem Sound.set {p : RetryPolicy} {call : Setting} (h : p.Sound) (hcall : call.Admissible) : (p.set call).Sound := by
  cases call with
  | initialInterval d => exact { h with initialInterval := hcall }
  | maxInterval d => exact { h with maxInterval := hcall }
  | coefficient x =>
      obtain ⟨hone, -, hfinite⟩ := Extended.max_one_spec x
      exact { h with
        coefficient_double := hcall.max Extended.isDouble_one, one_le := hone, coefficient_finite := hfinite }
  | jitter x =>
      obtain ⟨hnan, hwithin⟩ := Extended.clamp_unit_spec x
      exact { h with
        jitter_double := hcall.clamp, jitter_within := fun hne => hwithin fun hx => hne (hnan.mpr hx) }

/-- **Whatever the setters are given, the policy is sound.** -/
theorem sound_built {calls : List Setting} (hcalls : ∀ call ∈ calls, call.Admissible) : (built calls).Sound := by
  induction calls using List.reverseRecOn with
  | nil => exact sound_standard
  | append_singleton calls call ih =>
      rw [built, List.foldl_concat]
      exact (ih fun c hc => hcalls c (List.mem_append_left _ hc)).set
        (hcalls call (List.mem_append_right _ List.mem_cons_self))

/-- The coefficient is infinite where it was last set to be, and the jitter no number where it was last set to none. -/
theorem built_special_iff (calls : List Setting) :
    ((built calls).coefficient = .infinity false ↔ lastCoefficient calls = some (.infinity false)) ∧
      ((built calls).jitter = .nan ↔ lastJitter calls = some .nan) := by
  -- from the last call backwards, since that is the one that counts
  induction calls using List.reverseRecOn with
  | nil => decide +kernel
  | append_singleton calls call ih =>
      rw [built, lastCoefficient, lastJitter, List.foldl_concat, List.foldl_concat, List.foldl_concat]
      cases call with
      | initialInterval d => exact ih
      | maxInterval d => exact ih
      | coefficient x =>
          refine ⟨(Extended.max_one_spec x).2.1.trans ?_, ih.2⟩
          rw [Option.some.injEq]
      | jitter x =>
          refine ⟨ih.1, (Extended.clamp_unit_spec x).1.trans ?_⟩
          rw [Option.some.injEq]

end RetryPolicy

/-! ## Documents -/

/-- A double as a text shows it: what is not finite is shown as `null`. -/
def Json.shown (x : Extended) : Value := if x.toRat?.isSome then .number (.double x) else .null

namespace Json

variable {x : Extended}

theorem shown_chars (x : Extended) : (shown x).chars = (Value.number (.double x)).chars := by
  cases x with
  | nan | infinity _ | negativeZero | finite _ => rfl

theorem shown_flat (hx : x.IsDouble) : (shown x).Legible ∧ (shown x).depth = 0 ∧ (shown x).arranged = shown x := by
  unfold shown
  split
  · rename_i hfinite
    exact ⟨⟨hx, hfinite⟩, rfl, rfl⟩
  · exact ⟨trivial, rfl, rfl⟩

theorem decodeDouble_shown (hfinite : x.toRat?.isSome = true) : decodeDouble (shown x) = .ok x := by
  rw [shown, if_pos hfinite]
  rfl

/-- What is shown as `null` is not read as a number. -/
theorem decodeDouble_refused (hspecial : x.toRat?.isSome = false) :
    decodeDouble (shown x) = .error (.wrongType .null .double) := by
  rw [shown, if_neg (by rw [hspecial]; decide)]
  rfl

theorem decodeDouble_shown_or (x : Extended) :
    (∃ y, decodeDouble (shown x) = .ok y) ∨ decodeDouble (shown x) = .error (.wrongType .null .double) := by
  cases hfinite : x.toRat?.isSome with
  | true => exact .inl ⟨x, decodeDouble_shown hfinite⟩
  | false => exact .inr (decodeDouble_refused hfinite)

end Json

namespace RetryPolicy

variable {p : RetryPolicy}

/-- Each part of a policy has its own field. -/
theorem independent : record.Independent := by
  simp only [Record.Independent, record, List.pairwise_cons, List.forall_mem_cons, List.not_mem_nil,
    List.Pairwise.nil, false_implies, implies_true, and_true]
  repeat' constructor
  all_goals exact Field.commutes_of _ _ _ _ rfl rfl fun _ _ _ => rfl

/-- The members of a policy as its text shows them. -/
def shownMembers (p : RetryPolicy) : Members :=
  [("initial_interval", p.initialInterval.toJson), ("max_interval", p.maxInterval.toJson),
    ("backoff_coefficient", shown p.coefficient), ("jitter", shown p.jitter)]

theorem toJson_chars (p : RetryPolicy) : p.toJson.chars = (Value.object p.shownMembers).chars := by
  simp only [toJson, shownMembers, Value.chars, Value.membersChars, shown_chars]

theorem shownMembers_keys (p : RetryPolicy) : (p.shownMembers.map (·.1)).Nodup := by
  simp [shownMembers]

/-- What stands in the text of a policy is neither a list nor an object. -/
theorem Sound.plain (h : p.Sound) : ∀ m ∈ p.shownMembers, m.2.Legible ∧ m.2.depth = 0 := by
  obtain ⟨hcoefficient, hcoefficientFlat, -⟩ := shown_flat h.coefficient_double
  obtain ⟨hjitter, hjitterFlat, -⟩ := shown_flat h.jitter_double
  simp only [shownMembers, List.forall_mem_cons, List.not_mem_nil, false_implies, implies_true, and_true]
  exact ⟨⟨p.initialInterval.readable_toJson.legible, rfl⟩, ⟨p.maxInterval.readable_toJson.legible, rfl⟩,
    ⟨hcoefficient, hcoefficientFlat⟩, hjitter, hjitterFlat⟩

theorem Sound.takes (h : p.Sound) : record.Takes p.shownMembers := by
  have hplain := h.plain
  simp only [shownMembers, List.forall_mem_cons, List.not_mem_nil, false_implies, implies_true, and_true] at hplain
  obtain ⟨⟨hinitial, hinitialFlat⟩, ⟨hmax, hmaxFlat⟩, ⟨hcoefficient, hcoefficientFlat⟩, hjitter, hjitterFlat⟩ := hplain
  simp only [Record.Takes, shownMembers, List.forall_mem_cons, List.not_mem_nil, false_implies, implies_true, and_true]
  exact ⟨⟨_, rfl, Field.takes_of _ _ _ hinitial hinitialFlat⟩, ⟨_, rfl, Field.takes_of _ _ _ hmax hmaxFlat⟩,
    ⟨_, rfl, Field.takes_of _ _ _ hcoefficient hcoefficientFlat⟩, _, rfl, Field.takes_of _ _ _ hjitter hjitterFlat⟩

theorem Sound.arranged (h : p.Sound) : arrangedValues p.shownMembers = p.shownMembers := by
  simp only [arrangedValues, shownMembers, List.map_cons, List.map_nil, Duration.arranged_toJson,
    (shown_flat h.coefficient_double).2.2, (shown_flat h.jitter_double).2.2]

theorem Sound.truncated (h : p.Sound) :
    p.initialInterval.truncated = p.initialInterval ∧ p.maxInterval.truncated = p.maxInterval := by
  obtain ⟨n, hn, hinitial⟩ := h.initialInterval
  obtain ⟨m, hm, hmax⟩ := h.maxInterval
  rw [hinitial, hmax]
  exact ⟨Duration.truncated_ofMillis hn, Duration.truncated_ofMillis hm⟩

/-- A sound policy of finite numbers is decoded from its members. -/
theorem Sound.decode_shown (h : p.Sound) (hcoefficient : p.coefficient ≠ .infinity false) (hjitter : p.jitter ≠ .nan) :
    decode (.object p.shownMembers) = .ok p := by
  obtain ⟨hinitial, hmax⟩ := h.truncated
  have hdoubles : decodeDouble (shown p.coefficient) = .ok p.coefficient ∧ decodeDouble (shown p.jitter) = .ok p.jitter :=
    ⟨decodeDouble_shown (h.coefficient_finite hcoefficient), decodeDouble_shown (h.jitter_within hjitter).2⟩
  refine Record.decode_eq_ok_iff.mpr ⟨?_, ?_⟩
  · simp [shownMembers, Record.storeMembers, record, hdoubles, hinitial, hmax, Except.map, bind, Except.bind]
  · simp [shownMembers, record]

/-- A policy with a number that is shown as `null` is refused for that, in whatever order its members stand. -/
theorem Sound.shown_refused (h : p.Sound) (hspecial : p.coefficient = .infinity false ∨ p.jitter = .nan) :
    decode (Value.object p.shownMembers).arranged = .error (.wrongType .null .double) ∧
      decode (.object p.shownMembers) = .error (.wrongType .null .double) := by
  have hall : ∀ m ∈ p.shownMembers, ∀ field ∈ record.fields, field.name = m.1 → ∀ r,
      (∃ s, field.store m.2 r = .ok s) ∨ field.store m.2 r = .error (.wrongType .null .double) := by
    have hdouble : ∀ (x : Extended) (f : Extended → RetryPolicy),
        (∃ s, (decodeDouble (shown x)).map f = .ok s) ∨
          (decodeDouble (shown x)).map f = .error (.wrongType .null .double) :=
      fun x f => map_ok_or f (decodeDouble_shown_or x)
    have hspan : ∀ (d : Duration) (f : Duration → RetryPolicy),
        Except.map f (.ok d.truncated : Except DecodeError Duration) = .ok (f d.truncated) :=
      fun _ _ => rfl
    simp [shownMembers, record, hdouble, hspan]
  have hsome : ∃ m ∈ p.shownMembers, (∃ field ∈ record.fields, field.name = m.1) ∧
      ∀ field ∈ record.fields, field.name = m.1 → ∀ r, field.store m.2 r = .error (.wrongType .null .double) := by
    rcases hspecial with hspecial | hspecial
    · have hrefused := decodeDouble_refused (x := p.coefficient) (by rw [hspecial]; rfl)
      refine ⟨("backoff_coefficient", shown p.coefficient), by simp [shownMembers], by simp [record], ?_⟩
      simp [record, hrefused, Except.map]
    · have hrefused := decodeDouble_refused (x := p.jitter) (by rw [hspecial]; rfl)
      refine ⟨("jitter", shown p.jitter), by simp [shownMembers], by simp [record], ?_⟩
      simp [record, hrefused, Except.map]
  -- the map has the members in another order than the text, but every complaint there can be is the same
  refine ⟨Record.decode_arranged_fails (shownMembers_keys p) ?_ ?_,
    Record.decode_refused (Record.storeMembers_fails hall hsome)⟩
  · rw [h.arranged]
    exact hall
  · rw [h.arranged]
    exact hsome

theorem Sound.legible (h : p.Sound) : (Value.object p.shownMembers).Legible :=
  Value.membersLegible_iff.mpr fun m hm => (h.plain m hm).1

theorem Sound.depth_eq (h : p.Sound) : (Value.object p.shownMembers).depth ≤ 1 :=
  Nat.succ_le_succ (Value.membersDepth_le_iff.mpr fun m hm => (h.plain m hm).2.le)

theorem toJson_render (p : RetryPolicy) : p.toJson.render = (Value.object p.shownMembers).render :=
  congrArg String.ofList p.toJson_chars

/-- A sound policy of finite numbers is given back by its text. -/
theorem Sound.survives (h : p.Sound) (hcoefficient : p.coefficient ≠ .infinity false) (hjitter : p.jitter ≠ .nan) :
    decode (Value.object p.shownMembers).arranged = .ok p ∧ readText decode p.toJson.render = .ok p ∧
      record.parse p.toJson.render = .ok p := by
  have hdecode := h.decode_shown hcoefficient hjitter
  have harranged : decode (Value.object p.shownMembers).arranged = .ok p :=
    Record.decode_arranged independent (shownMembers_keys p) (by rw [h.arranged]; exact hdecode)
  have hdepth : (Value.object p.shownMembers).depth ≤ maxDepth := h.depth_eq.trans (by decide)
  rw [toJson_render, readText_render decode h.legible hdepth, harranged]
  exact ⟨rfl, rfl, Record.parse_render h.takes (shownMembers_keys p) hdecode⟩

/-- A policy with a number that is shown as `null` is refused. -/
theorem Sound.lost (h : p.Sound) (hspecial : p.coefficient = .infinity false ∨ p.jitter = .nan) :
    readText decode p.toJson.render = .error { cause := .shape (.wrongType .null .double), position := none } ∧
      ∃ e, record.parse p.toJson.render = .error e ∧ e.cause = .shape (.wrongType .null .double) := by
  obtain ⟨harranged, hdecode⟩ := h.shown_refused hspecial
  have hdepth : (Value.object p.shownMembers).depth ≤ maxDepth := h.depth_eq.trans (by decide)
  rw [toJson_render, readText_render decode h.legible hdepth, harranged]
  exact ⟨rfl, Record.parse_refuses h.takes (shownMembers_keys p) hdecode⟩

end RetryPolicy

/-! ## Inside a configuration -/

namespace ClientConfig

variable {config : ClientConfig}

theorem independent : record.Independent := by
  simp only [Record.Independent, record, List.pairwise_cons, List.forall_mem_cons, List.not_mem_nil,
    List.Pairwise.nil, false_implies, implies_true, and_true]
  repeat' constructor
  all_goals exact Field.commutes_of _ _ _ _ rfl rfl fun _ _ _ => rfl

/-- The members of a configuration whose policy stands as this value. -/
def membersWith (config : ClientConfig) (retry : Value) : Members :=
  [("gateway_address", .text config.gatewayAddress), ("connect_timeout", config.connectTimeout.toJson), ("retry", retry)]

/-- The members of a configuration as its text shows them. -/
def shownMembers (config : ClientConfig) : Members := config.membersWith (.object config.retry.shownMembers)

theorem toJson_render (config : ClientConfig) : config.toJson.render = (Value.object config.shownMembers).render := by
  have hchars : config.toJson.chars = (Value.object config.shownMembers).chars := by
    simp only [toJson, shownMembers, membersWith, Value.chars, Value.membersChars, RetryPolicy.toJson_chars]
  exact congrArg String.ofList hchars

theorem shownMembers_keys (config : ClientConfig) : (config.shownMembers.map (·.1)).Nodup := by
  simp [shownMembers, membersWith]

theorem arranged_shown (config : ClientConfig) :
    arrangedValues config.shownMembers = config.membersWith (Value.object config.retry.shownMembers).arranged := by
  simp [shownMembers, membersWith, arrangedValues]

theorem readText_toJson (h : config.retry.Sound) :
    readText decode config.toJson.render =
      (decode (Value.object config.shownMembers).arranged).mapError fun e => { cause := .shape e, position := none } := by
  have hparts : ∀ m ∈ config.shownMembers, m.2.Readable := by
    have hretry : (Value.object config.retry.shownMembers).Readable :=
      ⟨h.legible, Nat.lt_of_le_of_lt h.depth_eq (by decide)⟩
    simp [shownMembers, membersWith, readable_text, Duration.readable_toJson, hretry]
  rw [toJson_render]
  refine readText_render decode (Value.membersLegible_iff.mpr fun m hm => (hparts m hm).legible) ?_
  exact Nat.succ_le_succ (Value.membersDepth_le_iff.mpr fun m hm => Nat.le_of_lt_succ (hparts m hm).depth_lt)

/-- Each member is read straight from its text by its field, the policy by the fields of its own. -/
theorem shownMembers_takes (h : config.retry.Sound) : record.Takes config.shownMembers := by
  simp only [Record.Takes, shownMembers, membersWith, List.forall_mem_cons, List.not_mem_nil, false_implies, implies_true,
    and_true]
  exact ⟨⟨_, rfl, Field.takes_of _ _ _ trivial rfl⟩,
    ⟨_, rfl, Field.takes_of _ _ _ config.connectTimeout.readable_toJson.legible rfl⟩,
    _, rfl, (Field.takes_recordOf _ _ h.takes config.retry.shownMembers_keys).orAbsent⟩

/-- A configuration is decoded from its members where its policy is. -/
theorem decode_membersWith (config : ClientConfig) {retry : Value}
    (hretry : RetryPolicy.record.decode retry = .ok config.retry) :
    decode (.object (config.membersWith retry)) =
      .ok { config with connectTimeout := config.connectTimeout.truncated } := by
  refine Record.decode_eq_ok_iff.mpr ⟨?_, ?_⟩
  · simp [membersWith, Record.storeMembers, record, hretry, Except.map, bind, Except.bind]
  · simp [membersWith, record]

/-- A configuration is given back by its text as far as its policy is, its connect timeout in whole milliseconds. -/
theorem survives (config : ClientConfig) (h : config.retry.Sound)
    (hcoefficient : config.retry.coefficient ≠ .infinity false) (hjitter : config.retry.jitter ≠ .nan) :
    readText decode config.toJson.render = .ok { config with connectTimeout := config.connectTimeout.truncated } ∧
      record.parse config.toJson.render = .ok { config with connectTimeout := config.connectTimeout.truncated } := by
  have hkeys := config.shownMembers_keys
  constructor
  · have hdecode := config.decode_membersWith (h.survives hcoefficient hjitter).1
    rw [← arranged_shown] at hdecode
    rw [readText_toJson h, decode, Record.decode_arranged independent hkeys hdecode]
    rfl
  · rw [toJson_render]
    exact Record.parse_render (shownMembers_takes h) hkeys
      (config.decode_membersWith (h.decode_shown hcoefficient hjitter))

theorem lost (config : ClientConfig) (h : config.retry.Sound)
    (hspecial : config.retry.coefficient = .infinity false ∨ config.retry.jitter = .nan) :
    readText decode config.toJson.render =
        .error { cause := .shape (.wrongType .null .double), position := none } ∧
      ∃ e, record.parse config.toJson.render = .error e ∧ e.cause = .shape (.wrongType .null .double) := by
  have hkeys := config.shownMembers_keys
  obtain ⟨harranged, hshown⟩ := h.shown_refused hspecial
  constructor
  · have hretry : RetryPolicy.record.decode (Value.object config.retry.shownMembers).arranged =
        .error (.wrongType .null .double) := harranged
    rw [readText_toJson h, decode, Record.decode_arranged_fails hkeys]
    · rfl
    · simp [arranged_shown, membersWith, record, hretry, Except.map]
    · refine ⟨("retry", (Value.object config.retry.shownMembers).arranged), by simp [arranged_shown, membersWith],
        by simp [record], ?_⟩
      simp [record, hretry, Except.map]
  · have hretry : RetryPolicy.record.decode (.object config.retry.shownMembers) = .error (.wrongType .null .double) :=
      hshown
    rw [toJson_render]
    refine Record.parse_refuses (shownMembers_takes h) hkeys (Record.decode_refused ?_)
    simp [shownMembers, membersWith, Record.storeMembers, record, hretry, Except.map, bind, Except.bind]

end ClientConfig

/-! ## Survival -/

namespace RetryPolicy

/-- **Which retry policies survive JSON.** Whatever doubles the setters were called with, the coefficient is at least
one. The jitter lies between zero and one just where it was not last set to *not a number*. Where it was not, and the
coefficient was not last set to infinity, the policy is given back by its text, alone and within any configuration that
holds it, read as a value or straight from the text. Otherwise all of these texts are refused. -/
theorem built_survives_iff {calls : List Setting} (hcalls : ∀ call ∈ calls, call.Admissible) (config : ClientConfig) :
    let p := built calls
    let inside : ClientConfig := { config with retry := p }
    let refused : Json.Error := { cause := .shape (.wrongType .null .double), position := none }
    Extended.le .one p.coefficient = true ∧
    ((Extended.le .zero p.jitter = true ∧ Extended.le p.jitter .one = true) ↔ lastJitter calls ≠ some .nan) ∧
    (lastCoefficient calls ≠ some (.infinity false) ∧ lastJitter calls ≠ some .nan →
      readText decode p.toJson.render = .ok p ∧ record.parse p.toJson.render = .ok p ∧
      readText ClientConfig.decode inside.toJson.render =
        .ok { inside with connectTimeout := config.connectTimeout.truncated } ∧
      ClientConfig.record.parse inside.toJson.render =
        .ok { inside with connectTimeout := config.connectTimeout.truncated }) ∧
    (lastCoefficient calls = some (.infinity false) ∨ lastJitter calls = some .nan →
      readText decode p.toJson.render = .error refused ∧
      (∃ e, record.parse p.toJson.render = .error e ∧ e.cause = refused.cause) ∧
      readText ClientConfig.decode inside.toJson.render = .error refused ∧
      ∃ e, ClientConfig.record.parse inside.toJson.render = .error e ∧ e.cause = refused.cause) := by
  intro p inside refused
  have hsound : p.Sound := sound_built hcalls
  obtain ⟨hcoefficient, hjitter⟩ := built_special_iff calls
  refine ⟨hsound.one_le, ?_, ?_, ?_⟩
  · refine Iff.trans ⟨?_, fun hne => (hsound.jitter_within hne).1⟩ hjitter.not
    rintro ⟨hwithin, -⟩ hnan
    -- no comparison holds of what is no number
    rw [show p.jitter = .nan from hnan] at hwithin
    cases hwithin
  · rintro ⟨hlastCoefficient, hlastJitter⟩
    have hfinite : p.coefficient ≠ .infinity false := hcoefficient.not.mpr hlastCoefficient
    have hnumber : p.jitter ≠ .nan := hjitter.not.mpr hlastJitter
    obtain ⟨-, hread, hparse⟩ := hsound.survives hfinite hnumber
    exact ⟨hread, hparse, ClientConfig.survives inside hsound hfinite hnumber⟩
  · intro hlast
    have hspecial : p.coefficient = .infinity false ∨ p.jitter = .nan := hlast.imp hcoefficient.mpr hjitter.mpr
    obtain ⟨hread, hparse⟩ := hsound.lost hspecial
    exact ⟨hread, hparse, ClientConfig.lost inside hsound hspecial⟩

/-- Calls with numbers of all kinds, of which only the last for each part counts. -/
theorem survives_odd_calls :
    let calls : List Setting := [.coefficient (.infinity false), .jitter .nan, .initialInterval (.ofMillis 7),
      .jitter .negativeZero, .coefficient .nan, .maxInterval (.ofMillis maxUnsigned64)]
    record.parse (built calls).toJson.render = .ok (built calls) ∧
      built calls = ⟨.ofMillis 7, .ofMillis maxUnsigned64, .one, .negativeZero⟩ := by
  intro calls
  have hcalls : ∀ call ∈ calls, call.Admissible := by
    simp only [calls, List.forall_mem_cons, List.not_mem_nil, false_implies, implies_true, and_true]
    exact ⟨trivial, trivial, ⟨7, by decide, rfl⟩, trivial, trivial, ⟨maxUnsigned64, le_rfl, rfl⟩⟩
  have hsurvives := (built_survives_iff hcalls {}).2.2.1
  exact ⟨(hsurvives (by decide +kernel)).2.1, by decide +kernel⟩

/-- A jitter that is no number is kept, outside of the range, and what is written is not read back; neither is an
infinite coefficient. -/
theorem lost_specials :
    Extended.le .zero (built [.jitter .nan]).jitter = false ∧
      (record.parse (built [.jitter .nan]).toJson.render).isOk = false ∧
      (record.parse (built [.coefficient (.infinity false)]).toJson.render).isOk = false := by
  decide +kernel

end RetryPolicy

end JobWorker
