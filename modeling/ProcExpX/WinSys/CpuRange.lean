import ProcExpX.WinSys.CpuShare

/-!
# The range of the CPU formulas

Both CPU values are a product with a million that is divided twice and narrowed to 32
bits. The product has 63 bits for processes and 64 bits for threads, which is enough for
ten and twenty days of CPU time between two enumerations. As long as the product fits,
nothing else can go wrong.
-/

namespace WinSys

open Library

/-- The increase of the times of a process, as the code computes it. -/
def ProcessInfo.cpuIncrease (pi2 : ProcessInfo) (p : SystemProcessInformation) : Int64 :=
  p.kernelTime + p.userTime - pi2.userTime - pi2.kernelTime

/-- The CPU value of a process before it is narrowed. -/
def ProcessInfo.cpuQuotient (pi2 : ProcessInfo) (p : SystemProcessInformation) (delta : Int64)
    (totalProcessors : UInt32) : Int64 :=
  pi2.cpuIncrease p * 1000000 / delta / totalProcessors.toUInt64.toInt64

/-- The previous total time of a thread, as the code keeps it. -/
def ThreadInfo.cpuTime (thread : ThreadInfo) : Int64 :=
  (thread.userTime + thread.kernelTime).toInt64

/-- The increase of the times of a thread, as the code computes it. -/
def ThreadInfo.cpuIncrease (thread : ThreadInfo) (cpuTime : Int64) : UInt64 :=
  thread.kernelTime + thread.userTime - cpuTime.toUInt64

/-- The CPU value of a thread before it is narrowed. -/
def ThreadInfo.cpuQuotient (thread : ThreadInfo) (cpuTime delta : Int64)
    (totalProcessors : UInt32) : UInt64 :=
  thread.cpuIncrease cpuTime * 1000000 / delta.toUInt64 / totalProcessors.toUInt64

/-- A CPU value, computed from a product and a quotient, is the share of a time increase
in an elapsed number of ticks. -/
structure CpuExact (product quotient : ℤ) (cpu : Int32) (increase elapsed : ℕ)
    (totalProcessors : UInt32) : Prop where
  /-- The product does not overflow. -/
  product_eq : product = increase * 1000000
  /-- The narrowing loses nothing. -/
  narrows : cpu.toInt = quotient
  /-- The value is the rounded share. -/
  value_eq : cpu.toInt = cpuShare increase elapsed totalProcessors
  /-- It is at least 0. -/
  nonneg : 0 ≤ cpu.toInt
  /-- It is at most a million. -/
  le_million : cpu.toInt ≤ 1000000

/-- The share of a time increase that the processors can make is at most a million. -/
theorem cpuShare_le {increase elapsed : ℕ} {totalProcessors : UInt32}
    (h : increase ≤ elapsed * totalProcessors.toNat) :
    cpuShare increase elapsed totalProcessors ≤ 1000000 := by
  rw [cpuShare, Nat.div_div_eq_div_mul]
  refine Nat.div_le_of_le_mul ?_
  exact Nat.mul_le_mul_right 1000000 h

/-- The test for no elapsed ticks fails when ticks have elapsed. -/
private theorem delta_ne_zero {delta : Int64} (hdelta : 0 < delta.toInt) : delta ≠ 0 := by
  rintro rfl
  exact absurd hdelta (by decide)

/-- A formula that computes the product and the share without loss is exact, as the share
is at most a million. -/
private theorem CpuExact.of_share {product quotient : ℤ} {cpu : Int32} {increase elapsed : ℕ}
    {totalProcessors : UInt32} (hproduct : product = increase * 1000000)
    (hquotient : quotient = cpuShare increase elapsed totalProcessors)
    (hnarrows : quotient ≤ 1000000 → cpu.toInt = quotient)
    (hle : increase ≤ elapsed * totalProcessors.toNat) :
    CpuExact product quotient cpu increase elapsed totalProcessors := by
  have hshare := cpuShare_le hle
  have hcpu : cpu.toInt = quotient := hnarrows (by omega)
  exact ⟨hproduct, hcpu, hcpu.trans hquotient, by omega, by omega⟩

/-- **The process formula.** It is exact precisely when the product fits into 63 bits. -/
theorem ProcessInfo.cpuExact_iff (pi2 : ProcessInfo) (p : SystemProcessInformation)
    {delta : Int64} {totalProcessors : UInt32} {increase : ℕ} (hdelta : 0 < delta.toInt)
    (hprocessors : 0 < totalProcessors.toNat)
    (hincrease : p.kernelTime.toInt + p.userTime.toInt =
      pi2.kernelTime.toInt + pi2.userTime.toInt + increase)
    (hle : increase ≤ delta.toInt.toNat * totalProcessors.toNat) :
    CpuExact (pi2.cpuIncrease p * 1000000).toInt
        (pi2.cpuQuotient p delta totalProcessors).toInt
        (pi2.cpuSince p delta totalProcessors) increase delta.toInt.toNat totalProcessors ↔
      increase * 1000000 < 2 ^ 63 := by
  constructor
  · intro h
    have hlt := (pi2.cpuIncrease p * 1000000).toInt_lt
    rw [h.product_eq] at hlt
    omega
  · intro hfits
    have hinc : (pi2.cpuIncrease p).toInt = increase := by
      rw [ProcessInfo.cpuIncrease]
      refine toInt_increase (by omega) ?_
      omega
    have hproduct : (pi2.cpuIncrease p * 1000000).toInt = increase * 1000000 := by
      have hmillion : (1000000 : Int64).toInt = 1000000 := by decide
      rw [toInt_mul_of_lt, hinc, hmillion] <;> rw [hinc, hmillion] <;> omega
    have hfirst : (pi2.cpuIncrease p * 1000000 / delta).toInt =
        (increase * 1000000 / delta.toInt.toNat : ℕ) := by
      rw [toInt_div_of_nonneg (by rw [hproduct]; omega) hdelta, hproduct, Int.natCast_ediv,
        Int.toNat_of_nonneg hdelta.le, Int.natCast_mul]
      rfl
    have hquotient : (pi2.cpuQuotient p delta totalProcessors).toInt =
        cpuShare increase delta.toInt.toNat totalProcessors := by
      have hn := toInt_toInt64_of_uint32 totalProcessors
      rw [ProcessInfo.cpuQuotient, toInt_div_of_nonneg (hfirst ▸ Int.natCast_nonneg _) (by omega),
        hfirst, hn, cpuShare, Int.natCast_ediv _ totalProcessors.toNat]
    have hcpu : pi2.cpuSince p delta totalProcessors =
        (pi2.cpuQuotient p delta totalProcessors).toInt32 := if_neg (delta_ne_zero hdelta)
    refine .of_share hproduct hquotient (fun hmillion => ?_) hle
    rw [hcpu]
    exact toInt_toInt32_of_lt (hquotient ▸ Int.natCast_nonneg _) (hmillion.trans_lt (by decide))

/-- **The thread formula.** It is exact precisely when the product fits into 64 bits. -/
theorem ThreadInfo.cpuExact_iff (old thread : ThreadInfo) {delta : Int64}
    {totalProcessors : UInt32} {increase : ℕ} (hdelta : 0 < delta.toInt)
    (hincrease : thread.kernelTime.toNat + thread.userTime.toNat =
      old.kernelTime.toNat + old.userTime.toNat + increase)
    (hle : increase ≤ delta.toInt.toNat * totalProcessors.toNat) :
    CpuExact (thread.cpuIncrease old.cpuTime * 1000000).toNat
        (thread.cpuQuotient old.cpuTime delta totalProcessors).toNat
        (thread.cpuSince old.cpuTime delta totalProcessors) increase delta.toInt.toNat
        totalProcessors ↔
      increase * 1000000 < 2 ^ 64 := by
  constructor
  · intro h
    have hlt := (thread.cpuIncrease old.cpuTime * 1000000).toNat_lt
    have hproduct := h.product_eq
    omega
  · intro hfits
    have hinc : (thread.cpuIncrease old.cpuTime).toNat = increase := by
      rw [ThreadInfo.cpuIncrease, ThreadInfo.cpuTime, UInt64.toUInt64_toInt64]
      exact toNat_increase_unsigned (by omega) hincrease
    have hproduct : (thread.cpuIncrease old.cpuTime * 1000000).toNat = increase * 1000000 := by
      rw [UInt64.toNat_mul, hinc]
      exact Nat.mod_eq_of_lt hfits
    have helapsed : delta.toUInt64.toNat = delta.toInt.toNat := by
      have hmod := toNat_toUInt64 delta
      have hlt := delta.toInt_lt
      omega
    have hquotient : (thread.cpuQuotient old.cpuTime delta totalProcessors).toNat =
        cpuShare increase delta.toInt.toNat totalProcessors := by
      rw [ThreadInfo.cpuQuotient, UInt64.toNat_div, UInt64.toNat_div, hproduct, helapsed,
        UInt32.toNat_toUInt64, cpuShare]
    have hcpu : thread.cpuSince old.cpuTime delta totalProcessors =
        (thread.cpuQuotient old.cpuTime delta totalProcessors).toUInt32.toInt32 :=
      if_neg (delta_ne_zero hdelta)
    refine .of_share ?_ (congrArg Nat.cast hquotient) (fun hmillion => ?_) hle
    · rw [hproduct, Int.natCast_mul]
      rfl
    · rw [hcpu]
      exact toInt_toInt32_of_toNat_lt (by omega)

/-- **When the CPU formulas are exact.** For a time increase that the processors can make
in the elapsed ticks, the process formula is exact precisely up to 9223372036854 units of
100 ns, and the thread formula precisely up to 18446744073709. -/
theorem cpuExact_iff_le {delta : Int64} {totalProcessors : UInt32} {increase : ℕ}
    (hdelta : 0 < delta.toInt) (hprocessors : 0 < totalProcessors.toNat)
    (hle : increase ≤ delta.toInt.toNat * totalProcessors.toNat) :
    (∀ (pi2 : ProcessInfo) (p : SystemProcessInformation),
      p.kernelTime.toInt + p.userTime.toInt =
        pi2.kernelTime.toInt + pi2.userTime.toInt + increase →
      (CpuExact (pi2.cpuIncrease p * 1000000).toInt
          (pi2.cpuQuotient p delta totalProcessors).toInt
          (pi2.cpuSince p delta totalProcessors) increase delta.toInt.toNat totalProcessors ↔
        increase ≤ 9223372036854)) ∧
    (∀ old thread : ThreadInfo,
      thread.kernelTime.toNat + thread.userTime.toNat =
        old.kernelTime.toNat + old.userTime.toNat + increase →
      (CpuExact (thread.cpuIncrease old.cpuTime * 1000000).toNat
          (thread.cpuQuotient old.cpuTime delta totalProcessors).toNat
          (thread.cpuSince old.cpuTime delta totalProcessors) increase delta.toInt.toNat
          totalProcessors ↔
        increase ≤ 18446744073709)) := by
  constructor
  · intro pi2 p hincrease
    rw [pi2.cpuExact_iff p hdelta hprocessors hincrease hle]
    omega
  · intro old thread hincrease
    rw [old.cpuExact_iff thread hdelta hincrease hle]
    omega

/-- A second of a fully used processor on a machine with four of them. -/
theorem cpuExact_iff_le_second :
    CpuExact (((default : ProcessInfo).cpuIncrease
          { SystemProcessInformation.bare 0 0 with userTime := 10000000 }) * 1000000).toInt
        ((default : ProcessInfo).cpuQuotient
          { SystemProcessInformation.bare 0 0 with userTime := 10000000 } 10000000 4).toInt
        ((default : ProcessInfo).cpuSince
          { SystemProcessInformation.bare 0 0 with userTime := 10000000 } 10000000 4)
        10000000 (10000000 : Int64).toInt.toNat 4 :=
  ((cpuExact_iff_le (by decide) (by decide) (by decide)).1 _ _ (by decide)).mpr (by decide)

/-- The Idle process of a machine with 64 processors that do nothing for five hours gets a
negative value instead of a million. -/
theorem idle_cpu_negative :
    let delta : Int64 := 180000000000
    let increase : ℕ := 11520000000000
    let p : SystemProcessInformation :=
      { SystemProcessInformation.bare 0 0 with userTime := 11520000000000 }
    0 < delta.toInt ∧ increase ≤ delta.toInt.toNat * (64 : UInt32).toNat ∧
      p.kernelTime.toInt + p.userTime.toInt = (default : ProcessInfo).kernelTime.toInt +
        (default : ProcessInfo).userTime.toInt + increase ∧
      ((default : ProcessInfo).cpuSince p delta 64).toInt = -601279 ∧
      cpuShare increase delta.toInt.toNat 64 = 1000000 ∧
      ¬ CpuExact ((default : ProcessInfo).cpuIncrease p * 1000000).toInt
        ((default : ProcessInfo).cpuQuotient p delta 64).toInt
        ((default : ProcessInfo).cpuSince p delta 64) increase delta.toInt.toNat 64 := by
  intro delta increase p
  have hcpu : ((default : ProcessInfo).cpuSince p delta 64).toInt = -601279 := by decide
  refine ⟨by decide, by decide, by decide, hcpu, by decide, fun h => ?_⟩
  have hnonneg := h.nonneg
  rw [hcpu] at hnonneg
  exact absurd hnonneg (by decide)

end WinSys
