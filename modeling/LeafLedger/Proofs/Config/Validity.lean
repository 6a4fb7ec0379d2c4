import LeafLedger.Config
import LeafLedger.Proofs.Address
import LeafLedger.Proofs.Retry

namespace LeafLedger

theorem Duration.ofMillis_le_ofMillis {m n : UInt64} (le : m ≤ n) :
    (ofMillis m).nanos ≤ (ofMillis n).nanos :=
  Nat.mul_le_mul_right _ (UInt64.le_iff_toNat_le.mp le)

namespace WatchConfig

/-- A configuration that something can be done with. -/
structure Usable (config : WatchConfig) : Prop where
  rpcUrl : ∃ c ∈ config.rpcUrl.toList, ¬ Text.isBlank c
  wsUrl : ∃ c ∈ config.wsUrl.toList, ¬ Text.isBlank c
  watches : config.treeAddresses ≠ []
  trees : ∃ keys, config.trees = .ok keys ∧ config.treeAddresses = keys.map Bytes32.text
  attempts : 1 ≤ config.fetch.maxAttempts.toNat ∧ config.fetch.maxAttempts.toNat ≤ 100
  delays : config.fetch.initialDelayMs ≤ config.fetch.maxDelayMs

variable {config : WatchConfig}

theorem not_isBlankText_iff {s : String} :
    ¬ isBlankText s ↔ ∃ c ∈ s.toList, ¬ Text.isBlank c := by
  rw [isBlankText, Bool.not_eq_true, List.all_eq_false]

theorem trees_eq_ok_iff {keys : List Address} :
    config.trees = .ok keys ↔ config.treeAddresses = keys.map Bytes32.text := by
  refine Address.mapM_eq_ok_iff fun text key => ?_
  rw [← Address.parse_eq_ok_iff]
  cases Address.parse text <;> simp

theorem validate_eq_ok_iff : config.validate = .ok () ↔ config.Usable := by
  unfold validate
  simp only [throw_bind_eq, guard_eq_ok_iff, bind_eq_ok_iff, not_isBlankText_iff,
    List.isEmpty_iff, not_or, Nat.not_lt, UInt64.not_lt]
  constructor
  · rintro ⟨rpcUrl, wsUrl, watches, keys, read, ⟨some, few⟩, delays, _⟩
    have counted : config.fetch.maxAttempts.toNat ≠ 0 := fun zero => some (UInt32.toNat.inj zero)
    exact ⟨rpcUrl, wsUrl, watches, ⟨keys, read, trees_eq_ok_iff.mp read⟩,
      ⟨Nat.one_le_iff_ne_zero.mpr counted, few⟩, delays⟩
  · rintro ⟨rpcUrl, wsUrl, watches, ⟨keys, read, _⟩, ⟨some, few⟩, delays⟩
    refine ⟨rpcUrl, wsUrl, watches, keys, read, ⟨fun zero => ?_, few⟩, delays, rfl⟩
    rw [zero] at some
    exact absurd some (by decide)

/-- Only usable configurations pass, and they pass unchanged. -/
theorem checked_eq_ok_iff {accepted : WatchConfig} :
    config.checked = .ok accepted ↔ accepted = config ∧ config.Usable := by
  rw [checked, bind_eq_ok_iff, ← validate_eq_ok_iff]
  constructor
  · rintro ⟨_, passed, same⟩
    cases same
    exact ⟨rfl, passed⟩
  · rintro ⟨rfl, passed⟩
    exact ⟨(), passed, rfl⟩

theorem usable_of_ofText {text : String} (read : ofText text = .ok config) : config.Usable := by
  unfold ofText at read
  split at read
  next found =>
    obtain ⟨rfl, usable⟩ := checked_eq_ok_iff.mp read
    exact usable
  next => cases read

theorem usable_of_ofVariables {lookup : String → Option String}
    (read : ofVariables lookup = .ok config) : config.Usable := by
  simp only [ofVariables, bind_eq_ok_iff] at read
  obtain ⟨_, _, _, _, _, _, _, _, _, _, _, _, passed⟩ := read
  obtain ⟨rfl, usable⟩ := checked_eq_ok_iff.mp passed
  exact usable

namespace Usable

theorem delays_bounded (usable : config.Usable) (attempt : Nat) :
    config.policy.initialDelay.nanos ≤ (config.policy.delayAfter attempt).nanos ∧
      (config.policy.delayAfter attempt).nanos ≤ config.policy.maxDelay.nanos :=
  ⟨RetryPolicy.le_delayAfter (Duration.ofMillis_le_ofMillis usable.delays) attempt,
    RetryPolicy.delayAfter_le _ attempt⟩

theorem attempts_le (usable : config.Usable) : config.policy.attempts ≤ 100 :=
  Nat.max_le.mpr ⟨by decide, usable.attempts.2⟩

end Usable

/-- Every accepted configuration is usable. Its delays lie between the initial and the longest one,
and any fetch under it is over after at most a hundred attempts and ninety-nine such delays. -/
theorem usable_of_accepted
    (accepted : (∃ text, ofText text = .ok config) ∨ ∃ lookup, ofVariables lookup = .ok config) :
    config.Usable ∧
    (∀ attempt, config.policy.initialDelay.nanos ≤ (config.policy.delayAfter attempt).nanos ∧
      (config.policy.delayAfter attempt).nanos ≤ config.policy.maxDelay.nanos) ∧
    ∀ {σ : Type} (source : Source σ) (pacing : Pacing σ) (signature : String) (world : σ),
      let trace := (source.fetchPatiently pacing config.policy signature world).trace
      (asked trace).length ≤ 100 ∧ (waited trace).length ≤ 99 ∧
        ∀ delay ∈ waited trace, config.policy.initialDelay.nanos ≤ delay.nanos ∧
          delay.nanos ≤ config.policy.maxDelay.nanos := by
  have usable : config.Usable := accepted.elim (fun ⟨_, read⟩ => usable_of_ofText read)
    fun ⟨_, read⟩ => usable_of_ofVariables read
  refine ⟨usable, usable.delays_bounded, fun source pacing signature world => ?_⟩
  obtain ⟨attempts, delays, made, between, asks, waits⟩ :=
    source.exists_asked_waited pacing config.policy signature world
  have few := usable.attempts_le
  refine ⟨?_, ?_, fun delay mem => ?_⟩
  · rw [asks, List.length_replicate]
    omega
  · rw [waits, RetryPolicy.length_delays]
    omega
  · rw [waits] at mem
    obtain ⟨attempt, rfl⟩ := RetryPolicy.mem_delays mem
    exact usable.delays_bounded attempt

/-- A configuration with as many attempts as there may be, and the standard delays. -/
def sample : WatchConfig :=
  ⟨"r", "w", ["4xk8qmNdxhXgGHnBdZ1JoCQ8wYQGgTiJ6TyxWBxc4xEj"], ⟨100, 100, 5000⟩⟩

def sampleText : String :=
  "\x7b\"rpc_url\": \"r\", \"ws_url\": \"w\", \"fetch\": \x7b\"max_attempts\": 100\x7d, " ++
    "\"tree_addresses\": [\"4xk8qmNdxhXgGHnBdZ1JoCQ8wYQGgTiJ6TyxWBxc4xEj\"]\x7d"

theorem usable_of_accepted_sample :
    ofText sampleText = .ok sample ∧ sample.Usable ∧ ∀ attempt,
      100000000 ≤ (sample.policy.delayAfter attempt).nanos ∧
        (sample.policy.delayAfter attempt).nanos ≤ 5000000000 := by
  have read : ofText sampleText = .ok sample := by decide +kernel
  obtain ⟨usable, delays, _⟩ := usable_of_accepted (Or.inl ⟨sampleText, read⟩)
  exact ⟨read, usable, delays⟩

end WatchConfig

end LeafLedger
