import Mathlib

/-!
# Receiving frames from a stream that is read in chunks

A receiver reads chunks into a buffer until the buffer begins with a whole frame, returns
the decoded value and starts the next frame with an empty buffer.  Whatever the last chunk
held beyond the frame is dropped.  The values that were sent are received one after the
other exactly when the chunks can be grouped into frames.
-/

namespace ChunkedReads

variable {α β ε : Type}

abbrev Stream (β : Type) := List (List β)

section Receive

variable (decode : List β → Except ε (Option (α × Nat))) (closed : ε)

/-- Read chunks until the buffer begins with a whole frame; an empty chunk or the end of
the stream closes the connection. -/
def receiveInto : List β → Stream β → EStateM.Result ε (Stream β) α
  | buffer, [] =>
      match decode buffer with
      | .error error => .error error []
      | .ok (some (value, _)) => .ok value []
      | .ok none => .error closed []
  | buffer, chunk :: rest =>
      match decode buffer with
      | .error error => .error error (chunk :: rest)
      | .ok (some (value, _)) => .ok value (chunk :: rest)
      | .ok none =>
          if chunk.isEmpty then .error closed rest
          else receiveInto (buffer ++ chunk) rest

/-- Receive one value, starting with an empty buffer. -/
def receive : EStateM ε (Stream β) α := receiveInto decode closed []

def receiveMany : Nat → EStateM ε (Stream β) (List α)
  | 0 => pure []
  | count + 1 => do
      let value ← receive decode closed
      let values ← receiveMany count
      pure (value :: values)

end Receive

structure ReadsFrames (decode : List β → Except ε (Option (α × Nat)))
    (encode : α → List β) (valid : α → Prop) : Prop where
  whole : ∀ value, valid value →
    decode (encode value) = .ok (some (value, (encode value).length))
  part : ∀ value, valid value → ∀ buffer, buffer <+: encode value →
    buffer ≠ encode value → decode buffer = .ok none
  fits : ∀ buffer value used, decode buffer = .ok (some (value, used)) →
    (encode value).length ≤ buffer.length

/-- The chunks can be grouped so that each group is one frame. -/
def Aligned (frames : List (List β)) (chunks : Stream β) : Prop :=
  ∃ groups : List (Stream β), groups.flatten = chunks ∧ groups.map List.flatten = frames

section Frames

variable {decode : List β → Except ε (Option (α × Nat))} {closed : ε}
  {encode : α → List β} {valid : α → Prop}

theorem ReadsFrames.receiveInto_group (reads : ReadsFrames decode encode valid)
    {value : α} (isValid : valid value) {buffer : List β} {group : Stream β}
    (full : ∀ chunk ∈ group, chunk ≠ [])
    (completes : buffer ++ group.flatten = encode value) (rest : Stream β) :
    receiveInto decode closed buffer (group ++ rest) = .ok value rest := by
  induction group generalizing buffer with
  | nil =>
      have whole : buffer = encode value := by simpa using completes
      have decoded := reads.whole value isValid
      cases rest <;> simp [receiveInto, whole, decoded]
  | cons chunk group ih =>
      have chunkFull : chunk ≠ [] := full chunk List.mem_cons_self
      have more : decode buffer = .ok none := by
        apply reads.part value isValid
        · exact ⟨_, completes⟩
        · intro whole
          rw [whole, List.append_right_eq_self, List.flatten_cons,
            List.append_eq_nil_iff] at completes
          exact chunkFull completes.1
      simp only [List.cons_append, receiveInto, more, List.isEmpty_iff, chunkFull, if_false]
      apply ih
      · exact fun later inGroup => full later (List.mem_cons_of_mem _ inGroup)
      · simpa [List.append_assoc] using completes

theorem ReadsFrames.of_receiveInto (reads : ReadsFrames decode encode valid)
    {buffer : List β} {chunks rest : Stream β} {value : α}
    (received : receiveInto decode closed buffer chunks = .ok value rest) :
    ∃ group, chunks = group ++ rest ∧
      (encode value).length ≤ (buffer ++ group.flatten).length := by
  induction chunks generalizing buffer with
  | nil =>
      rw [receiveInto] at received
      cases decoded : decode buffer with
      | error error => simp [decoded] at received
      | ok found =>
          cases found with
          | none => simp [decoded] at received
          | some found =>
              simp only [decoded, EStateM.Result.ok.injEq] at received
              obtain ⟨rfl, rfl⟩ := received
              exact ⟨[], rfl, by simpa using reads.fits buffer _ _ decoded⟩
  | cons chunk chunks ih =>
      rw [receiveInto] at received
      cases decoded : decode buffer with
      | error error => simp [decoded] at received
      | ok found =>
          cases found with
          | none =>
              simp only [decoded] at received
              split at received
              · cases received
              · obtain ⟨group, split, longer⟩ := ih received
                refine ⟨chunk :: group, by rw [split, List.cons_append], ?_⟩
                simpa [List.append_assoc] using longer
          | some found =>
              simp only [decoded, EStateM.Result.ok.injEq] at received
              obtain ⟨rfl, rfl⟩ := received
              exact ⟨[], rfl, by simpa using reads.fits buffer _ _ decoded⟩

theorem receiveMany_succ_eq_ok {count : Nat} {chunks rest : Stream β} {values : List α} :
    receiveMany decode closed (count + 1) chunks = .ok values rest ↔
      ∃ value later between, values = value :: later ∧
        receive decode closed chunks = .ok value between ∧
        receiveMany decode closed count between = .ok later rest := by
  rw [receiveMany]
  simp only [bind, EStateM.bind, pure, EStateM.pure]
  cases first : receive decode closed chunks with
  | error error after => simp
  | ok value between =>
      cases others : receiveMany decode closed count between with
      | error error after => simp [others]
      | ok later after =>
          simp only [others, EStateM.Result.ok.injEq]
          constructor
          · rintro ⟨rfl, rfl⟩
            exact ⟨value, later, between, rfl, ⟨rfl, rfl⟩, others⟩
          · rintro ⟨_, _, _, rfl, ⟨rfl, rfl⟩, again⟩
            rw [others] at again
            simp_all

theorem ReadsFrames.receiveMany_groups (reads : ReadsFrames decode encode valid)
    {values : List α} (allValid : ∀ value ∈ values, valid value)
    {groups : List (Stream β)} (full : ∀ chunk ∈ groups.flatten, chunk ≠ [])
    (grouped : groups.map List.flatten = values.map encode) :
    receiveMany decode closed values.length groups.flatten = .ok values [] := by
  induction values generalizing groups with
  | nil =>
      have none : groups = [] := by simpa using grouped
      rw [none]
      rfl
  | cons value values ih =>
      obtain ⟨group, groups, rfl⟩ := List.exists_cons_of_ne_nil
        (by rintro rfl; simp at grouped : groups ≠ [])
      simp only [List.map_cons, List.cons.injEq] at grouped
      rw [List.flatten_cons] at full
      simp only [List.mem_append] at full
      rw [List.length_cons, receiveMany_succ_eq_ok]
      refine ⟨value, values, groups.flatten, rfl, ?_, ?_⟩
      · rw [List.flatten_cons, receive]
        exact reads.receiveInto_group (allValid value List.mem_cons_self)
          (fun chunk inGroup => full chunk (.inl inGroup)) (by simpa using grouped.1) _
      · exact ih (fun later inValues => allValid later (List.mem_cons_of_mem _ inValues))
          (fun chunk inGroups => full chunk (.inr inGroups)) grouped.2

theorem ReadsFrames.of_receiveMany (reads : ReadsFrames decode encode valid)
    {count : Nat} {chunks rest : Stream β} {values : List α}
    (received : receiveMany decode closed count chunks = .ok values rest) :
    ∃ groups : List (Stream β), chunks = groups.flatten ++ rest ∧
      List.Forall₂ (fun value group => (encode value).length ≤ group.flatten.length)
        values groups := by
  induction count generalizing chunks values with
  | zero =>
      rw [receiveMany, pure] at received
      injection received with none same
      subst none same
      exact ⟨[], rfl, .nil⟩
  | succ count ih =>
      obtain ⟨value, later, between, rfl, first, others⟩ := receiveMany_succ_eq_ok.mp received
      obtain ⟨group, rfl, longer⟩ := reads.of_receiveInto first
      obtain ⟨groups, rfl, laterLonger⟩ := ih others
      refine ⟨group :: groups, by simp [List.append_assoc], .cons ?_ laterLonger⟩
      simpa using longer

theorem length_frames_le {values : List α} {groups : List (Stream β)}
    (longer : List.Forall₂
      (fun value group => (encode value).length ≤ group.flatten.length) values groups) :
    (values.map encode).flatten.length ≤ groups.flatten.flatten.length := by
  induction longer with
  | nil => simp
  | cons one _ ih =>
      simp only [List.map_cons, List.flatten_cons, List.length_append, List.flatten_append]
      omega

/-- Groups at least as long as their frames that make up no more than the frames are the
frames. -/
theorem map_flatten_eq_of_longer {values : List α} {groups : List (Stream β)}
    {rest : List β}
    (longer : List.Forall₂
      (fun value group => (encode value).length ≤ group.flatten.length) values groups)
    (total : groups.flatten.flatten ++ rest = (values.map encode).flatten) :
    groups.map List.flatten = values.map encode := by
  induction longer with
  | nil => rfl
  | @cons value group values groups one others ih =>
      have othersLength := length_frames_le others
      simp only [List.map_cons, List.flatten_cons, List.flatten_append,
        List.append_assoc] at total ⊢
      have lengths := congrArg List.length total
      simp only [List.length_append] at lengths
      obtain ⟨same, tails⟩ := List.append_inj total (by omega)
      rw [same, ih tails]

theorem ReadsFrames.receiveMany_iff_aligned (reads : ReadsFrames decode encode valid)
    {values : List α} (allValid : ∀ value ∈ values, valid value)
    {chunks : Stream β} (full : ∀ chunk ∈ chunks, chunk ≠ [])
    (sent : chunks.flatten = (values.map encode).flatten) :
    (∃ rest, receiveMany decode closed values.length chunks = .ok values rest) ↔
      Aligned (values.map encode) chunks := by
  constructor
  · rintro ⟨rest, received⟩
    obtain ⟨groups, rfl, longer⟩ := reads.of_receiveMany received
    have grouped : groups.map List.flatten = values.map encode := by
      apply map_flatten_eq_of_longer longer
      rw [← sent, List.flatten_append]
    have nothing : rest.flatten = [] := by
      rw [List.flatten_append, ← grouped, List.flatten_flatten] at sent
      simpa using sent
    have done : rest = [] := by
      apply List.eq_nil_iff_forall_not_mem.mpr
      intro chunk inRest
      exact full chunk (List.mem_append_right _ inRest)
        (List.flatten_eq_nil_iff.mp nothing chunk inRest)
    exact ⟨groups, by rw [done, List.append_nil], grouped⟩
  · rintro ⟨groups, rfl, grouped⟩
    exact ⟨[], reads.receiveMany_groups allValid full grouped⟩

end Frames

end ChunkedReads
