import Vtorrent.FileLayouts
import Vtorrent.PaymentBuilder

/-!
# The fewest coins for a payment

Coins are taken largest first until they cover the target and the fee for their number.  The
largest coins are worth at least as much as any others of the same number, so the first number
that suffices is the least number of coins that can cover the payment.
-/

namespace Vtorrent

theorem sum_le_sum_take {values chosen : List Nat} (descending : values.Pairwise (· ≥ ·))
    (among : chosen.Sublist values) : chosen.sum ≤ (values.take chosen.length).sum := by
  induction among with
  | slnil => simp
  | @cons chosen values value among ih =>
      obtain ⟨largest, descending⟩ := List.pairwise_cons.mp descending
      refine (ih descending).trans ?_
      cases count : chosen.length with
      | zero => simp
      | succ fewer =>
          rw [List.take_succ_cons, List.sum_cons, List.take_add_one, List.sum_append]
          have next : (values[fewer]?.toList).sum ≤ value := by
            cases found : values[fewer]? with
            | none => simp
            | some other => simpa using largest other (List.mem_of_getElem? found)
          omega
  | cons_cons value among ih =>
      have rest := ih (List.pairwise_cons.mp descending).2
      rw [List.length_cons, List.take_succ_cons, List.sum_cons, List.sum_cons]
      omega

namespace TxBuilder

def sizeFor (inputs outputBytes : Nat) : Nat :=
  txOverhead + inputs * p2pkhInputSize + outputBytes

/-- The fee of a transaction with a number of inputs, as an exact number. -/
def exactFee (feeRate minAbsoluteFee : UInt64) (inputs outputBytes : Nat) : Nat :=
  max (sizeFor inputs outputBytes * feeRate.toNat) minAbsoluteFee.toNat

def worth (coins : List Utxo) : Nat := (coins.map fun utxo => utxo.value.toNat).sum

/-- A number of coins of the given value pays the target and the fee, and the size of the
transaction is a number of the machine. -/
def Suffices (targetSats feeRate minAbsoluteFee : UInt64) (outputBytes count value : Nat) :
    Prop :=
  sizeFor count outputBytes < 2 ^ 64 ∧
    targetSats.toNat + exactFee feeRate minAbsoluteFee count outputBytes ≤ value

/-- Take candidates in order until they cover the target and the fee.  A size that is not a
number of the machine aborts. -/
def takeCoinsChecked (targetSats feeRate minAbsoluteFee : UInt64) (outputBytes : Nat) :
    List Utxo → UInt64 → List Utxo → Except Abort (Except WalletError (List Utxo × UInt64))
  | _, selectedValue, [] => .ok (.error (.insufficientFunds selectedValue targetSats))
  | selected, selectedValue, utxo :: candidates =>
      let selected := selected ++ [utxo]
      if selectedValue.toNat + utxo.value.toNat < 2 ^ 64 then
        let selectedValue := selectedValue + utxo.value
        if sizeFor selected.length outputBytes < 2 ^ 64 then
          let fee := estimatedFee feeRate minAbsoluteFee selected.length outputBytes
          if saturatingAdd targetSats fee ≤ selectedValue then .ok (.ok (selected, fee))
          else takeCoinsChecked targetSats feeRate minAbsoluteFee outputBytes selected
            selectedValue candidates
        else .error .overflow
      else .ok (.error (.buildError "UTXO value overflow"))

def candidates (utxos : List Utxo) : List Utxo :=
  (utxos.filter fun utxo => dustSatoshis ≤ utxo.value).insertionSort
    fun first second => second.value ≤ first.value

/-- `select_coins_with_output_size`, with the abort on a size that overflows. -/
def selectCoinsChecked (utxos : List Utxo) (targetSats feeRate minAbsoluteFee : UInt64)
    (outputBytes : Nat) : Except Abort (Except WalletError (List Utxo × UInt64)) :=
  takeCoinsChecked targetSats feeRate minAbsoluteFee outputBytes [] 0 (candidates utxos)

section Selection

variable {target rate minimum : UInt64} {bytes : Nat}

theorem takeCoins_of_checked {selected candidates : List Utxo} {value : UInt64}
    {result : Except WalletError (List Utxo × UInt64)}
    (taken : takeCoinsChecked target rate minimum bytes selected value candidates =
      .ok result) :
    takeCoins target rate minimum bytes selected value candidates = result := by
  induction candidates generalizing selected value with
  | nil => exact Except.ok.inj taken
  | cons utxo candidates ih =>
      unfold takeCoinsChecked at taken
      unfold takeCoins
      dsimp only at taken ⊢
      split at taken
      · rename_i fits
        rw [if_pos fits]
        split at taken
        · split at taken
          · rename_i covered
            rw [if_pos covered]
            exact Except.ok.inj taken
          · rename_i uncovered
            rw [if_neg uncovered]
            exact ih taken
        · cases taken
      · rename_i overflows
        rw [if_neg overflows]
        exact Except.ok.inj taken

/-- Unless it aborts, the selection is the one that payments are funded with. -/
theorem selectCoins_of_checked {utxos : List Utxo}
    {result : Except WalletError (List Utxo × UInt64)}
    (selected : selectCoinsChecked utxos target rate minimum bytes = .ok result) :
    selectCoinsWithOutputSize utxos target rate minimum bytes = result :=
  takeCoins_of_checked selected

/-- Below the largest number, saturation does not decide whether the coins suffice. -/
theorem saturated_le_iff {value : UInt64} (small : value.toNat < 2 ^ 63) (count : Nat) :
    saturatingAdd target (estimatedFee rate minimum count bytes) ≤ value ↔
      target.toNat + exactFee rate minimum count bytes ≤ value.toNat := by
  have least := minimum.toNat_lt
  rw [UInt64.le_iff_toNat_le, toNat_saturatingAdd, toNat_estimatedFee, exactFee, sizeFor]
  omega

theorem Suffices.toNat_estimatedFee {count value : Nat}
    (enough : Suffices target rate minimum bytes count value) (small : value < 2 ^ 63) :
    (estimatedFee rate minimum count bytes).toNat = exactFee rate minimum count bytes := by
  have covered := enough.2
  rw [exactFee, sizeFor] at covered
  rw [TxBuilder.toNat_estimatedFee, exactFee, sizeFor]
  omega

theorem toNat_add_of_worth {value : UInt64} {utxo : Utxo} {candidates : List Utxo}
    (small : value.toNat + worth (utxo :: candidates) < 2 ^ 63) :
    (value + utxo.value).toNat = value.toNat + utxo.value.toNat ∧
      (value + utxo.value).toNat + worth candidates =
        value.toNat + worth (utxo :: candidates) := by
  have total : worth (utxo :: candidates) = utxo.value.toNat + worth candidates := rfl
  have sum : (value + utxo.value).toNat = value.toNat + utxo.value.toNat := by
    rw [UInt64.toNat_add, Nat.mod_eq_of_lt (by omega)]
  exact ⟨sum, by omega⟩

theorem takeCoinsChecked_cons {selected candidates : List Utxo} {value : UInt64} {utxo : Utxo}
    (small : value.toNat + worth (utxo :: candidates) < 2 ^ 63) :
    takeCoinsChecked target rate minimum bytes selected value (utxo :: candidates) =
      if sizeFor (selected.length + 1) bytes < 2 ^ 64 then
        if target.toNat + exactFee rate minimum (selected.length + 1) bytes ≤
            value.toNat + utxo.value.toNat then
          .ok (.ok (selected ++ [utxo], estimatedFee rate minimum (selected.length + 1) bytes))
        else takeCoinsChecked target rate minimum bytes (selected ++ [utxo])
          (value + utxo.value) candidates
      else .error .overflow := by
  obtain ⟨sum, rest⟩ := toNat_add_of_worth small
  have enough := @saturated_le_iff target rate minimum bytes (value + utxo.value) (by omega)
    (selected.length + 1)
  rw [takeCoinsChecked]
  simp only [List.length_append, List.length_singleton]
  rw [if_pos (by omega)]
  simp only [enough, sum]

theorem takeCoinsChecked_eq_ok {selected candidates coins : List Utxo} {value fee : UInt64}
    (small : value.toNat + worth candidates < 2 ^ 63)
    (taken : takeCoinsChecked target rate minimum bytes selected value candidates =
      .ok (.ok (coins, fee))) :
    ∃ more, more <+: candidates ∧ more ≠ [] ∧ coins = selected ++ more ∧
      fee = estimatedFee rate minimum coins.length bytes ∧
      Suffices target rate minimum bytes coins.length (value.toNat + worth more) ∧
      ∀ fewer, fewer <+: candidates → fewer ≠ [] → fewer.length < more.length →
        ¬ Suffices target rate minimum bytes (selected.length + fewer.length)
          (value.toNat + worth fewer) := by
  induction candidates generalizing selected value with
  | nil => cases taken
  | cons utxo candidates ih =>
      obtain ⟨sum, rest⟩ := toNat_add_of_worth small
      rw [takeCoinsChecked_cons small] at taken
      split at taken
      · rename_i fits
        split at taken
        · rename_i covered
          cases taken
          have single : worth [utxo] = utxo.value.toNat := by simp [worth]
          refine ⟨[utxo], by simp, by simp, rfl, by simp, ?_, ?_⟩
          · rw [List.length_append, List.length_singleton, single]
            exact ⟨fits, covered⟩
          · intro fewer _ nonempty shorter
            have := List.length_pos_iff.mpr nonempty
            simp only [List.length_singleton] at shorter
            omega
        · rename_i uncovered
          obtain ⟨more, first, _, rfl, charged, enough, least⟩ := ih (by omega) taken
          have total : worth (utxo :: more) = utxo.value.toNat + worth more := rfl
          refine ⟨utxo :: more, by simpa using first, by simp, by simp, charged, ?_, ?_⟩
          · rwa [total, ← Nat.add_assoc, ← sum]
          · intro fewer part nonempty shorter sufficient
            obtain ⟨other, fewer, rfl⟩ := List.exists_cons_of_ne_nil nonempty
            obtain ⟨rfl, inner⟩ := List.cons_prefix_cons.mp part
            have totals : worth (other :: fewer) = other.value.toNat + worth fewer := rfl
            by_cases none : fewer = []
            · subst none
              exact uncovered (by simpa [worth] using sufficient.2)
            · refine least fewer inner none (by simpa using shorter) ?_
              rw [sum, Nat.add_assoc, ← totals, List.length_append, List.length_singleton,
                Nat.add_assoc, Nat.add_comm 1]
              exact sufficient
      · cases taken

theorem exists_takeCoinsChecked {selected candidates part : List Utxo} {value : UInt64}
    (small : value.toNat + worth candidates < 2 ^ 63) (first : part <+: candidates)
    (nonempty : part ≠ [])
    (enough : Suffices target rate minimum bytes (selected.length + part.length)
      (value.toNat + worth part)) :
    ∃ coins fee, takeCoinsChecked target rate minimum bytes selected value candidates =
      .ok (.ok (coins, fee)) := by
  induction candidates generalizing selected value part with
  | nil => exact absurd (List.prefix_nil.mp first) nonempty
  | cons utxo candidates ih =>
      obtain ⟨other, part, rfl⟩ := List.exists_cons_of_ne_nil nonempty
      obtain ⟨rfl, inner⟩ := List.cons_prefix_cons.mp first
      obtain ⟨sum, rest⟩ := toNat_add_of_worth small
      have total : worth (other :: part) = other.value.toNat + worth part := rfl
      have fits : sizeFor (selected.length + 1) bytes < 2 ^ 64 := by
        refine Nat.lt_of_le_of_lt ?_ enough.1
        simp only [sizeFor, List.length_cons]
        gcongr
        omega
      rw [takeCoinsChecked_cons small, if_pos fits]
      split
      · exact ⟨_, _, rfl⟩
      · rename_i uncovered
        by_cases none : part = []
        · subst none
          exact absurd (by simpa [worth] using enough.2) uncovered
        · have later : Suffices target rate minimum bytes
              ((selected ++ [other]).length + part.length)
              ((value + other.value).toNat + worth part) := by
            rw [sum, Nat.add_assoc, ← total, List.length_append, List.length_singleton,
              Nat.add_assoc, Nat.add_comm 1]
            exact enough
          exact ih (by omega) inner none later

theorem worth_perm {coins others : List Utxo} (permuted : coins.Perm others) :
    worth coins = worth others :=
  List.Perm.sum_eq (permuted.map _)

theorem candidates_descending (utxos : List Utxo) :
    ((candidates utxos).map fun utxo => utxo.value.toNat).Pairwise (· ≥ ·) := by
  rw [List.pairwise_map]
  refine List.Pairwise.imp (fun ordered => UInt64.le_iff_toNat_le.mp ordered)
    (@List.pairwise_insertionSort _ (fun first second : Utxo => second.value ≤ first.value) _
      ⟨?_⟩ ⟨?_⟩ _)
  · intro first second
    exact UInt64.le_total second.value first.value
  · intro first second third larger smaller
    exact UInt64.le_trans smaller larger

theorem worth_le_worth_take {utxos chosen : List Utxo} (among : chosen.Sublist utxos)
    (spendable : ∀ utxo ∈ chosen, dustSatoshis ≤ utxo.value) :
    chosen.length ≤ (candidates utxos).length ∧
      worth chosen ≤ worth ((candidates utxos).take chosen.length) := by
  have kept : chosen.Sublist (utxos.filter fun utxo => dustSatoshis ≤ utxo.value) := by
    have filtered := among.filter fun utxo => decide (dustSatoshis ≤ utxo.value)
    rwa [List.filter_eq_self.mpr (by simpa using spendable)] at filtered
  obtain ⟨arranged, permuted, sorted⟩ : chosen.Subperm (candidates utxos) :=
    kept.subperm.trans (List.perm_insertionSort _ _).symm.subperm
  have largest := sum_le_sum_take (candidates_descending utxos)
    (sorted.map fun utxo => utxo.value.toNat)
  rw [List.length_map, permuted.length_eq, ← List.map_take, ← worth, ← worth,
    worth_perm permuted] at largest
  exact ⟨permuted.length_eq ▸ sorted.length_le, largest⟩

theorem worth_candidates_le (utxos : List Utxo) : worth (candidates utxos) ≤ worth utxos := by
  rw [candidates, worth_perm (List.perm_insertionSort _ _)]
  exact ((List.filter_sublist).map _).sum_le_sum fun _ _ => Nat.zero_le _

/-- Coins of the wallet that are not dust and pay the target with the fee for their number. -/
structure Pays (utxos : List Utxo) (target rate minimum : UInt64) (bytes : Nat)
    (chosen : List Utxo) : Prop where
  among : chosen.Sublist utxos
  spendable : ∀ utxo ∈ chosen, dustSatoshis ≤ utxo.value
  covered : Suffices target rate minimum bytes chosen.length (worth chosen)

theorem exists_pays_of_prefix {utxos coins : List Utxo} (first : coins <+: candidates utxos)
    (enough : Suffices target rate minimum bytes coins.length (worth coins)) :
    ∃ chosen, chosen.Perm coins ∧ Pays utxos target rate minimum bytes chosen := by
  obtain ⟨chosen, permuted, kept⟩ : coins.Subperm
      (utxos.filter fun utxo => dustSatoshis ≤ utxo.value) :=
    first.sublist.subperm.trans (List.perm_insertionSort _ _).subperm
  refine ⟨chosen, permuted, kept.trans List.filter_sublist, ?_, ?_⟩
  · intro utxo member
    simpa using (List.mem_filter.mp (kept.subset member)).2
  · rwa [permuted.length_eq, worth_perm permuted]

theorem Pays.take {utxos chosen : List Utxo} (nonempty : chosen ≠ [])
    (pays : Pays utxos target rate minimum bytes chosen) :
    ∃ first, first <+: candidates utxos ∧ first ≠ [] ∧ first.length = chosen.length ∧
      Suffices target rate minimum bytes first.length (worth first) := by
  obtain ⟨fits, more⟩ := worth_le_worth_take pays.among pays.spendable
  have count : ((candidates utxos).take chosen.length).length = chosen.length := by
    rw [List.length_take, min_eq_left fits]
  refine ⟨(candidates utxos).take chosen.length, List.take_prefix _ _, ?_, count, ?_⟩
  · rw [← List.length_pos_iff, count]
    exact List.length_pos_iff.mpr nonempty
  · rw [count]
    exact ⟨pays.covered.1, pays.covered.2.trans more⟩

end Selection

/-- Coins are selected exactly when some coins, at least one, pay the target and the fee for
their number.  The selected coins then are such coins, the fee is the one for their number, and
no fewer coins pay. -/
theorem selection_takes_fewest {utxos : List Utxo} (small : worth utxos < 2 ^ 63)
    (target rate minimum : UInt64) (bytes : Nat) :
    ((∃ coins fee, selectCoinsChecked utxos target rate minimum bytes = .ok (.ok (coins, fee))) ↔
      ∃ chosen, chosen ≠ [] ∧ Pays utxos target rate minimum bytes chosen) ∧
    ∀ coins fee, selectCoinsChecked utxos target rate minimum bytes = .ok (.ok (coins, fee)) →
      (∃ chosen, chosen ≠ [] ∧ chosen.Perm coins ∧
          Pays utxos target rate minimum bytes chosen) ∧
        fee.toNat = exactFee rate minimum coins.length bytes ∧
        ∀ chosen, chosen ≠ [] → Pays utxos target rate minimum bytes chosen →
          coins.length ≤ chosen.length := by
  have few : (0 : UInt64).toNat + worth (candidates utxos) < 2 ^ 63 := by
    have := worth_candidates_le utxos
    simp only [UInt64.toNat_zero]
    omega
  have paid : ∀ {coins fee}, selectCoinsChecked utxos target rate minimum bytes =
      .ok (.ok (coins, fee)) → ∃ chosen, chosen ≠ [] ∧ chosen.Perm coins ∧
        Pays utxos target rate minimum bytes chosen := by
    intro coins fee selected
    obtain ⟨more, first, nonempty, rfl, _, enough, _⟩ := takeCoinsChecked_eq_ok few selected
    obtain ⟨chosen, permuted, pays⟩ := exists_pays_of_prefix first (by simpa using enough)
    exact ⟨chosen, fun none => nonempty (none ▸ permuted).nil_eq.symm, permuted, pays⟩
  refine ⟨⟨?_, ?_⟩, fun coins fee selected => ⟨paid selected, ?_, ?_⟩⟩
  · rintro ⟨coins, fee, selected⟩
    obtain ⟨chosen, nonempty, -, pays⟩ := paid selected
    exact ⟨chosen, nonempty, pays⟩
  · rintro ⟨chosen, nonempty, pays⟩
    obtain ⟨first, part, present, _, enough⟩ := pays.take nonempty
    exact exists_takeCoinsChecked few part present (by simpa using enough)
  · obtain ⟨more, -, -, -, rfl, -, -⟩ := takeCoinsChecked_eq_ok few selected
    obtain ⟨chosen, -, permuted, pays⟩ := paid selected
    rw [← permuted.length_eq]
    exact pays.covered.toNat_estimatedFee
      ((pays.among.map _).sum_le_sum (fun _ _ => Nat.zero_le _) |>.trans_lt small)
  · intro chosen nonempty pays
    obtain ⟨more, _, _, rfl, _, _, least⟩ := takeCoinsChecked_eq_ok few selected
    obtain ⟨first, part, present, count, enough⟩ := pays.take nonempty
    by_contra fewer
    refine least first part present ?_ (by simpa using enough)
    rw [count]
    simpa using fewer

namespace Wallets

def coinOf (value : UInt64) : Utxo := ⟨zeroHash, 0, value, [], 0, 0⟩

end Wallets

open Wallets in
/-- Two of three coins are selected for a payment that no single one covers. -/
theorem selection_takes_fewest_of_three :
    selectCoinsChecked [coinOf 1000, coinOf 5000, coinOf 4000] 7000 1 0 34 =
        .ok (.ok ([coinOf 5000, coinOf 4000], 338)) ∧
      (338 : UInt64).toNat = exactFee 1 0 2 34 ∧
      ∀ chosen, chosen ≠ [] → Pays [coinOf 1000, coinOf 5000, coinOf 4000] 7000 1 0 34 chosen →
        2 ≤ chosen.length := by
  have selected : selectCoinsChecked [coinOf 1000, coinOf 5000, coinOf 4000] 7000 1 0 34 =
      .ok (.ok ([coinOf 5000, coinOf 4000], 338)) := by decide
  exact ⟨selected, ((selection_takes_fewest (by decide) 7000 1 0 34).2 _ _ selected).2⟩

open Wallets in
/-- No coins at all pay nothing without a fee, but nothing is selected; and a coin that pays for
a transaction of more bytes than the machine counts is not selected either. -/
theorem covered_selections_refused :
    (selectCoinsChecked [] 0 0 0 34 = .ok (.error (.insufficientFunds 0 0)) ∧
      Pays [] 0 0 0 34 []) ∧
    selectCoinsChecked [coinOf 5000] 1 0 0 (2 ^ 64 - 1) = .error .overflow ∧
      (1 : UInt64).toNat + exactFee 0 0 1 (2 ^ 64 - 1) ≤ worth [coinOf 5000] :=
  ⟨⟨rfl, List.Sublist.refl _, by simp, by decide, by decide⟩, by decide,
    by decide⟩

end TxBuilder

end Vtorrent
