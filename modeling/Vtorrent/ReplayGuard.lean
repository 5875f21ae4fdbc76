import Vtorrent.ReplayState

/-!
# No code is accepted twice

The step in the file is at least every accepted step as long as each write of a step is whole.
A write that is cut short leaves the first digits of a step, which read as a smaller number.
-/

namespace Vtorrent

open DecimalText

section Files

theorem fromUtf8_stringBytes (text : String) : fromUtf8 (stringBytes text) = some text := by
  have bytes : (⟨(stringBytes text).toArray⟩ : ByteArray) = text.toByteArray := rfl
  rw [fromUtf8, bytes, String.fromUTF8?, dif_pos text.isValidUTF8]
  rfl

theorem printU64_ne_nil (number : UInt64) : printU64 number ≠ [] := Nat.toDigits_ne_nil

theorem stepBytes_ne_nil (step : UInt64) : stepBytes step ≠ [] := by
  intro empty
  have texts : String.ofList (printU64 step) = "" := stringBytes_injective empty
  refine printU64_ne_nil step ?_
  simpa using congrArg String.toList texts

theorem length_stepBytes_le (step : UInt64) : (stepBytes step).length ≤ 128 := by
  have digits : (printU64 step).length ≤ 20 :=
    (Nat.length_toDigits_le_iff (by decide) (by decide)).mpr (by have := step.toNat_lt; omega)
  have encoded : ∀ text : List Char,
      (stringBytes (String.ofList text)).length ≤ 4 * text.length := by
    intro text
    rw [stringBytes_ofList]
    induction text with
    | nil => simp
    | cons symbol text ih =>
        have size := symbol.utf8Size_le_four
        simp only [List.flatMap_cons, List.length_append, String.length_utf8EncodeChar,
          List.length_cons]
        omega
  exact (encoded _).trans (by omega)

theorem lastStep_stepBytes (created : Bool) (step : UInt64) :
    lastStep created (stepBytes step) = .ok (some step) := by
  have short : decide (128 < (stepBytes step).length) = false :=
    decide_eq_false (Nat.not_lt.mpr (length_stepBytes_le step))
  have visible : trim (printU64 step) = printU64 step :=
    trim_eq_self fun _ member => isWhitespace_of_isDigit (isDigit_of_mem_toDigits member)
  have text : ¬ (created = true ∧ String.ofList (printU64 step) = "") := by
    rintro ⟨_, empty⟩
    exact printU64_ne_nil step (by simpa using congrArg String.toList empty)
  rw [lastStep, short, readToString, stepBytes, fromUtf8_stringBytes]
  simp only [required, Checked.ok_bind, if_neg text, parseStep, String.toList_ofList, visible,
    parseU64_printU64]
  rfl

theorem stringBytes_of_fromUtf8 {bytes : Bytes} {text : String}
    (decoded : fromUtf8 bytes = some text) : stringBytes text = bytes := by
  rw [fromUtf8, String.fromUTF8?] at decoded
  split at decoded
  · obtain rfl := Option.some.inj decoded
    rfl
  · cases decoded

theorem lastStep_empty (last : Option UInt64) : lastStep false [] ≠ .ok last := by
  have decoded : fromUtf8 [] = some "" := fromUtf8_stringBytes ""
  have nothing : parseU64 (trim "".toList) = none := by decide
  intro read
  obtain ⟨_, _, read⟩ := Checked.bind_eq_ok.mp read
  obtain ⟨text, opened, read⟩ := Checked.bind_eq_ok.mp read
  rw [readToString, decoded] at opened
  obtain rfl := Except.ok.inj opened
  rw [parseStep, nothing] at read
  cases read

theorem lastStep_eq_ok {created : Bool} {content : Bytes} {last : Option UInt64}
    (read : lastStep created content = .ok last) :
    created = true ∧ content = [] ∧ last = none ∨
      ∃ step, last = some step ∧ lastStep false content = .ok (some step) := by
  obtain ⟨_, short, afterSize⟩ := Checked.bind_eq_ok.mp read
  obtain ⟨text, opened, afterText⟩ := Checked.bind_eq_ok.mp afterSize
  split at afterText
  · rename_i empty
    obtain ⟨rfl, rfl⟩ := empty
    have decoded := Checked.required_eq_ok.mp opened
    exact .inl ⟨rfl, (stringBytes_of_fromUtf8 decoded).symm, (Except.ok.inj afterText).symm⟩
  · cases parsed : parseStep "invalid TOTP replay state" text with
    | error reason =>
        rw [parsed] at afterText
        cases afterText
    | ok step =>
        rw [parsed] at afterText
        refine .inr ⟨step, (Except.ok.inj afterText).symm, ?_⟩
        refine Checked.bind_eq_ok.mpr ⟨(), short, Checked.bind_eq_ok.mpr ⟨text, opened, ?_⟩⟩
        rw [if_neg (by simp), parsed]
        rfl

end Files

namespace CallPhase

/-- The call has passed the checks of the records and has not ended. -/
def Begun : CallPhase → Prop
  | .idle | .ended => False
  | _ => True

def Holds : CallPhase → Prop
  | .locked _ | .ready | .writing _ | .accepted => True
  | _ => False

def Creates : CallPhase → Prop
  | .opened created | .locked created => created = true
  | _ => False

def Passed : CallPhase → Prop
  | .ready | .writing _ => True
  | _ => False

theorem Creates.begun {phase : CallPhase} (creates : phase.Creates) : phase.Begun := by
  cases phase <;> trivial

theorem Passed.begun {phase : CallPhase} (passed : phase.Passed) : phase.Begun := by
  cases phase <;> trivial

theorem Passed.holds {phase : CallPhase} (passed : phase.Passed) : phase.Holds := by
  cases phase <;> trivial

end CallPhase

namespace ReplayStore

variable {calls : Nat → ConsumeCall} {store next : ReplayStore} {call : Nat}

theorem phases_move (phase : CallPhase) : (store.move call phase).phases call = phase :=
  Function.update_self ..

theorem phases_move_of_ne {other : Nat} (different : other ≠ call) (phase : CallPhase) :
    (store.move call phase).phases other = store.phases other :=
  Function.update_of_ne different ..

theorem forall_move {P : Nat → CallPhase → Prop} {phase : CallPhase} (here : P call phase)
    (others : ∀ other, other ≠ call → P other (store.phases other)) (other : Nat) :
    P other ((store.move call phase).phases other) := by
  by_cases same : other = call
  · rw [same, phases_move]
    exact here
  · rw [phases_move_of_ne same]
    exact others other same

inductive Transition (calls : Nat → ConsumeCall) (store : ReplayStore) :
    ReplayEvent → ReplayStore → Prop
  | enter (call : Nat) : Transition calls store (.enter call) (store.openFile call (calls call))
  | lock {call : Nat} {created : Bool} (opened : store.phases call = .opened created)
      (free : store.holder = none) :
      Transition calls store (.lock call)
        { store.move call (.locked created) with holder := some call }
  | read {call : Nat} {created : Bool} {content : Bytes}
      (locked : store.phases call = .locked created) (file : store.file = some content) :
      Transition calls store (.read call) (store.readFile call (calls call) created content)
  | truncate {call : Nat} (ready : store.phases call = .ready) :
      Transition calls store (.truncate call)
        { store.move call (.writing (stepBytes (calls call).step)) with file := some [] }
  | write {call count : Nat} {rest content : Bytes}
      (writing : store.phases call = .writing rest) (file : store.file = some content)
      (fits : 0 < count ∧ count ≤ rest.length) :
      Transition calls store (.write call count)
        { store.move call (.writing (rest.drop count)) with
          file := some (content ++ rest.take count) }
  | sync {call : Nat} (writing : store.phases call = .writing []) :
      Transition calls store (.sync call)
        { store.move call .accepted with log := store.log ++ [call] }
  | release (call : Nat) : Transition calls store (.release call) (store.leave call)
  | stop (call : Nat) : Transition calls store (.stop call) (store.leave call)

theorem transition_of_perform {event : ReplayEvent}
    (performed : store.perform calls event = some next) : Transition calls store event next := by
  cases event with
  | enter call =>
      rw [perform] at performed
      split at performed
      · exact Option.some.inj performed ▸ .enter call
      · cases performed
  | lock call =>
      rw [perform] at performed
      split at performed
      · rename_i opened free
        exact Option.some.inj performed ▸ .lock opened free
      · cases performed
  | read call =>
      rw [perform] at performed
      split at performed
      · rename_i locked file
        exact Option.some.inj performed ▸ .read locked file
      · cases performed
  | truncate call =>
      rw [perform] at performed
      split at performed
      · rename_i ready
        exact Option.some.inj performed ▸ .truncate ready
      · cases performed
  | write call count =>
      rw [perform] at performed
      split at performed
      · rename_i rest content writing file
        split at performed
        · rename_i fits
          exact Option.some.inj performed ▸ .write writing file fits
        · cases performed
      · cases performed
  | sync call =>
      rw [perform] at performed
      split at performed
      · rename_i writing
        exact Option.some.inj performed ▸ .sync writing
      · cases performed
  | release call =>
      rw [perform] at performed
      split at performed
      · exact Option.some.inj performed ▸ .release call
      · cases performed
  | stop call =>
      rw [perform] at performed
      split at performed
      · cases performed
      · exact Option.some.inj performed ▸ .stop call

theorem passed_of_writing {rest : Bytes} (writing : store.phases call = .writing rest) :
    (store.phases call).Passed := by
  rw [writing]
  trivial

theorem passed_of_ready (ready : store.phases call = .ready) : (store.phases call).Passed := by
  rw [ready]
  trivial

/-- The accepted steps increase and are at most the step in the file, and only the call that has
the lock is about to change them. -/
structure Ordered (calls : Nat → ConsumeCall) (store : ReplayStore) : Prop where
  increasing : (store.log.map fun call => (calls call).step).Pairwise (· < ·)
  checked : ∀ call ∈ store.log, (calls call).checkRecords = .ok ()
  begun : ∀ call, (store.phases call).Begun → (calls call).checkRecords = .ok ()
  exclusive : ∀ call, (store.phases call).Holds → store.holder = some call
  missing : store.file = none → store.log = [] ∧ ∀ call, ¬ (store.phases call).Begun
  created : ∀ call, (store.phases call).Creates → store.file = some [] ∧ store.log = [] ∧
    (∀ other, (store.phases other).Creates → other = call) ∧
      ∀ other, ¬ (store.phases other).Passed
  passed : ∀ call, (store.phases call).Passed →
    ∀ earlier ∈ store.log, (calls earlier).step < (calls call).step
  written : ∀ call rest, store.phases call = .writing rest →
    rest = stepBytes (calls call).step ∧ store.file = some [] ∨
      rest = [] ∧ store.file = some (stepBytes (calls call).step)
  recorded : ∀ content last, store.file = some content →
    lastStep false content = .ok (some last) →
      ∀ earlier ∈ store.log, (calls earlier).step ≤ last

theorem ordered_initial (file : Option Bytes) : Ordered calls (initial file) where
  increasing := .nil
  checked := by intro call member; cases member
  begun := by intro call begun; cases begun
  exclusive := by intro call holds; cases holds
  missing := fun _ => ⟨rfl, fun _ begun => begun⟩
  created := by intro call creates; cases creates
  passed := by intro call passed; cases passed
  written := by intro call rest writing; cases writing
  recorded := by intro content last _ _ earlier member; cases member

namespace Ordered

theorem eq_of_holds (ordered : Ordered calls store) {other : Nat}
    (holds : (store.phases call).Holds) (also : (store.phases other).Holds) : other = call :=
  Option.some.inj ((ordered.exclusive other also).symm.trans (ordered.exclusive call holds))

theorem move (ordered : Ordered calls store) {phase : CallPhase} {holder : Option Nat}
    (begun : phase.Begun → (calls call).checkRecords = .ok () ∧ store.file ≠ none)
    (holds : phase.Holds → holder = some call)
    (others : ∀ other, other ≠ call → (store.phases other).Holds → holder = some other)
    (creates : phase.Creates → (store.phases call).Creates)
    (passed : phase.Passed → phase = .ready ∧ (∀ other, ¬ other = call →
      ¬ (store.phases other).Creates) ∧
        ∀ earlier ∈ store.log, (calls earlier).step < (calls call).step) :
    Ordered calls { store.move call phase with holder := holder } where
  increasing := ordered.increasing
  checked := ordered.checked
  begun := forall_move (P := fun other phase => phase.Begun → (calls other).checkRecords = .ok ())
    (fun here => (begun here).1) fun other _ => ordered.begun other
  exclusive := forall_move (P := fun other phase => phase.Holds → holder = some other) holds others
  missing := by
    intro absent
    obtain ⟨empty, none⟩ := ordered.missing absent
    exact ⟨empty, forall_move (P := fun _ phase => ¬ phase.Begun)
      (fun here => (begun here).2 absent) fun other _ => none other⟩
  created := by
    have still : ∀ other, ((store.move call phase).phases other).Creates →
        (store.phases other).Creates :=
      forall_move (P := fun other phase => phase.Creates → (store.phases other).Creates) creates
        fun _ _ => id
    intro other creating
    obtain ⟨file, log, only, none⟩ := ordered.created other (still other creating)
    refine ⟨file, log, fun third also => only third (still third also), ?_⟩
    refine forall_move (P := fun _ phase => ¬ phase.Passed) ?_ fun third _ => none third
    intro here
    obtain ⟨ready, alone, _⟩ := passed here
    by_cases same : other = call
    · rw [same] at creating
      change ((store.move call phase).phases call).Creates at creating
      rw [phases_move, ready] at creating
      exact creating
    · exact alone other same (still other creating)
  passed := forall_move (P := fun other phase => phase.Passed →
      ∀ earlier ∈ store.log, (calls earlier).step < (calls other).step)
    (fun here => (passed here).2.2) fun other _ => ordered.passed other
  written := forall_move (P := fun other phase => ∀ rest, phase = .writing rest →
      rest = stepBytes (calls other).step ∧ store.file = some [] ∨
        rest = [] ∧ store.file = some (stepBytes (calls other).step))
    (by
      rintro rest rfl
      cases (passed trivial).1)
    fun other _ => ordered.written other
  recorded := ordered.recorded

theorem leave (ordered : Ordered calls store) (call : Nat) :
    Ordered calls (store.leave call) := by
  refine ordered.move (fun begun => begun.elim) (fun holds => holds.elim) ?_
    (fun creates => creates.elim) fun passed => passed.elim
  intro other different holds
  have holder := ordered.exclusive other holds
  have kept : store.holder ≠ some call := by simpa [holder] using different
  rw [if_neg kept, holder]

theorem advance (ordered : Ordered calls store) {phase : CallPhase} {content : Bytes}
    {log : List Nat} (before : (store.phases call).Passed)
    (increasing : (log.map fun call => (calls call).step).Pairwise (· < ·))
    (checked : ∀ earlier ∈ log, (calls earlier).checkRecords = .ok ())
    (creates : ¬ phase.Creates)
    (passed : phase.Passed → ∀ earlier ∈ log, (calls earlier).step < (calls call).step)
    (written : ∀ rest, phase = .writing rest →
      rest = stepBytes (calls call).step ∧ content = [] ∨
        rest = [] ∧ content = stepBytes (calls call).step)
    (recorded : ∀ last, lastStep false content = .ok (some last) →
      ∀ earlier ∈ log, (calls earlier).step ≤ last) :
    Ordered calls { store.move call phase with file := some content, log := log } where
  increasing := increasing
  checked := checked
  begun := forall_move (P := fun other phase => phase.Begun → (calls other).checkRecords = .ok ())
    (fun _ => ordered.begun call before.begun) fun other _ => ordered.begun other
  exclusive := forall_move (P := fun other phase => phase.Holds → store.holder = some other)
    (fun _ => ordered.exclusive call before.holds) fun other _ => ordered.exclusive other
  missing := by intro absent; cases absent
  created := by
    have none : ∀ other, ¬ ((store.move call phase).phases other).Creates :=
      forall_move (P := fun _ phase => ¬ phase.Creates) creates fun other _ creating =>
        (ordered.created other creating).2.2.2 call before
    intro other creating
    exact absurd creating (none other)
  passed := forall_move (P := fun other phase => phase.Passed →
      ∀ earlier ∈ log, (calls earlier).step < (calls other).step)
    passed fun other different also =>
      absurd (ordered.eq_of_holds before.holds also.holds) different
  written := forall_move (P := fun other phase => ∀ rest, phase = .writing rest →
      rest = stepBytes (calls other).step ∧ some content = some [] ∨
        rest = [] ∧ some content = some (stepBytes (calls other).step))
    (fun rest writing => by simpa using written rest writing) (by
      intro other different rest writing
      have also := passed_of_writing writing
      exact absurd (ordered.eq_of_holds before.holds also.holds) different)
  recorded := by
    rintro _ last ⟨⟩ read
    exact recorded last read

theorem create (ordered : Ordered calls store) (absent : store.file = none)
    (checked : (calls call).checkRecords = .ok ()) :
    Ordered calls { store.move call (.opened true) with file := some [] } := by
  obtain ⟨empty, none⟩ := ordered.missing absent
  exact {
    increasing := ordered.increasing
    checked := ordered.checked
    begun := forall_move
      (P := fun other phase => phase.Begun → (calls other).checkRecords = .ok ())
      (fun _ => checked) fun other _ => ordered.begun other
    exclusive := forall_move (P := fun other phase => phase.Holds → store.holder = some other)
      (fun holds => holds.elim) fun other _ => ordered.exclusive other
    missing := by intro absent; cases absent
    created := forall_move (P := fun other phase => phase.Creates → some [] = some [] ∧
        store.log = [] ∧
          (∀ third, ((store.move call (.opened true)).phases third).Creates → third = other) ∧
            ∀ third, ¬ ((store.move call (.opened true)).phases third).Passed)
      (fun _ => ⟨rfl, empty,
        forall_move (P := fun third phase => phase.Creates → third = call) (fun _ => rfl)
          fun third _ creates => absurd creates.begun (none third),
        forall_move (P := fun _ phase => ¬ phase.Passed) id
          fun third _ passed => none third passed.begun⟩)
      fun other _ creates => absurd creates.begun (none other)
    passed := by
      intro other _ earlier member
      change earlier ∈ store.log at member
      rw [empty] at member
      cases member
    written := forall_move (P := fun other phase => ∀ rest, phase = .writing rest →
        rest = stepBytes (calls other).step ∧ some [] = some [] ∨
          rest = [] ∧ some [] = some (stepBytes (calls other).step))
      (fun _ writing => by cases writing) (by
        intro other _ rest writing
        exact absurd (passed_of_writing writing).begun (none other))
    recorded := by
      rintro _ last ⟨⟩ read
      exact absurd read (lastStep_empty _) }

theorem openFile (ordered : Ordered calls store) (call : Nat) :
    Ordered calls (store.openFile call (calls call)) := by
  rw [ReplayStore.openFile]
  split
  · exact ordered.leave call
  · rename_i checked absent
    exact ordered.create absent checked
  · rename_i checked present
    refine ordered.move (fun _ => ⟨checked, by simp [present]⟩) (fun holds => holds.elim)
      (fun other _ => ordered.exclusive other) (fun creates => nomatch creates)
      fun passed => passed.elim

theorem lock (ordered : Ordered calls store) {created : Bool}
    (opened : store.phases call = .opened created) (free : store.holder = none) :
    Ordered calls { store.move call (.locked created) with holder := some call } := by
  have begun : (store.phases call).Begun := by
    rw [opened]
    trivial
  refine ordered.move (fun _ => ⟨ordered.begun call begun, ?_⟩) (fun _ => rfl) ?_ ?_
    fun passed => passed.elim
  · intro absent
    exact (ordered.missing absent).2 call begun
  · intro other _ holds
    have taken := ordered.exclusive other holds
    rw [free] at taken
    cases taken
  · intro creates
    rw [opened]
    exact creates

theorem readFile (ordered : Ordered calls store) {created : Bool} {content : Bytes}
    (locked : store.phases call = .locked created) (file : store.file = some content) :
    Ordered calls (store.readFile call (calls call) created content) := by
  have begun : (store.phases call).Begun := by
    rw [locked]
    trivial
  have holds : (store.phases call).Holds := by
    rw [locked]
    trivial
  rw [ReplayStore.readFile]
  split
  · exact ordered.leave call
  · rename_i last read
    split
    · exact ordered.leave call
    · rename_i fresh
      refine ordered.move (fun _ => ⟨ordered.begun call begun, by simp [file]⟩)
        (fun _ => ordered.exclusive call holds) (fun other _ => ordered.exclusive other)
        (fun creates => creates.elim) fun _ => ⟨rfl, ?_, ?_⟩
      · intro other different creates
        obtain ⟨empty, _, only, _⟩ := ordered.created other creates
        obtain rfl : content = [] := Option.some.inj (file.symm.trans empty)
        rcases lastStep_eq_ok read with ⟨rfl, _, _⟩ | ⟨step, _, again⟩
        · refine different (only call ?_).symm
          rw [locked]
          rfl
        · exact lastStep_empty _ again
      · intro earlier member
        rcases lastStep_eq_ok read with ⟨rfl, _, _⟩ | ⟨step, rfl, again⟩
        · have creates : (store.phases call).Creates := by
            rw [locked]
            rfl
          rw [(ordered.created call creates).2.1] at member
          cases member
        · have below := ordered.recorded content step file again earlier member
          have above : step < (calls call).step := by simpa using fresh
          exact UInt64.lt_of_le_of_lt below above

theorem truncate (ordered : Ordered calls store) (ready : store.phases call = .ready) :
    Ordered calls { store.move call (.writing (stepBytes (calls call).step)) with
      file := some [] } := by
  have passed := passed_of_ready ready
  refine ordered.advance passed ordered.increasing ordered.checked id
    (fun _ => ordered.passed call passed) ?_ ?_
  · rintro rest ⟨⟩
    exact .inl ⟨rfl, rfl⟩
  · intro last read
    exact absurd read (lastStep_empty _)

theorem write (ordered : Ordered calls store) {rest content : Bytes}
    (writing : store.phases call = .writing rest) (file : store.file = some content)
    (some_left : rest ≠ []) :
    Ordered calls { store.move call (.writing []) with file := some (content ++ rest) } := by
  have passed := passed_of_writing writing
  have whole : content ++ rest = stepBytes (calls call).step := by
    rcases ordered.written call rest writing with ⟨rfl, empty⟩ | ⟨rfl, _⟩
    · obtain rfl : content = [] := Option.some.inj (file.symm.trans empty)
      rfl
    · exact absurd rfl some_left
  rw [whole]
  refine ordered.advance passed ordered.increasing ordered.checked id
    (fun _ => ordered.passed call passed) ?_ ?_
  · rintro rest ⟨⟩
    exact .inr ⟨rfl, rfl⟩
  · intro last read earlier member
    rw [lastStep_stepBytes] at read
    obtain rfl := Option.some.inj (Except.ok.inj read)
    exact UInt64.le_of_lt (ordered.passed call passed earlier member)

theorem sync (ordered : Ordered calls store) (writing : store.phases call = .writing []) :
    Ordered calls { store.move call .accepted with log := store.log ++ [call] } := by
  have passed := passed_of_writing writing
  have file : store.file = some (stepBytes (calls call).step) := by
    rcases ordered.written call [] writing with ⟨empty, _⟩ | ⟨_, file⟩
    · exact absurd empty.symm (stepBytes_ne_nil _)
    · exact file
  have advanced : Ordered calls { store.move call .accepted with
      file := some (stepBytes (calls call).step), log := store.log ++ [call] } := by
    refine ordered.advance passed ?_ ?_ id (fun none => none.elim)
      (fun rest other => by cases other) ?_
    · rw [List.map_append, List.pairwise_append]
      refine ⟨ordered.increasing, List.pairwise_singleton .., ?_⟩
      intro _ earlier _ latest
      obtain ⟨before, member, rfl⟩ := List.mem_map.mp earlier
      obtain rfl := List.mem_singleton.mp latest
      exact ordered.passed call passed before member
    · intro earlier member
      rcases List.mem_append.mp member with old | latest
      · exact ordered.checked earlier old
      · rw [List.mem_singleton.mp latest]
        exact ordered.begun call passed.begun
    · intro last read earlier member
      rw [lastStep_stepBytes] at read
      obtain rfl := Option.some.inj (Except.ok.inj read)
      rcases List.mem_append.mp member with old | latest
      · exact UInt64.le_of_lt (ordered.passed call passed earlier old)
      · rw [List.mem_singleton.mp latest]
        exact UInt64.le_refl _
  rw [← file] at advanced
  exact advanced

theorem perform (ordered : Ordered calls store) {event : ReplayEvent}
    (whole : store.WritesWhole event) (performed : store.perform calls event = some next) :
    Ordered calls next := by
  cases transition_of_perform performed with
  | enter call => exact ordered.openFile call
  | lock opened free => exact ordered.lock opened free
  | read locked file => exact ordered.readFile locked file
  | truncate ready => exact ordered.truncate ready
  | write writing file fits =>
      obtain rfl := whole _ writing
      rw [List.drop_length, List.take_length]
      exact ordered.write writing file (List.ne_nil_of_length_pos fits.1)
  | sync writing => exact ordered.sync writing
  | release call => exact ordered.leave call
  | stop call => exact ordered.leave call

theorem run {first : ReplayStore} (ordered : Ordered calls first)
    (run : Run calls WritesWhole first store) : Ordered calls store := by
  induction run with
  | refl => exact ordered
  | step run permitted performed ih => exact ih.perform permitted performed

end Ordered

/-- The file holds no step, and no call in progress has created it or passed its check. -/
structure Blocked (store : ReplayStore) (content : Bytes) : Prop where
  file : store.file = some content
  unreadable : ∀ last, lastStep false content ≠ .ok last
  created : ∀ call, ¬ (store.phases call).Creates
  passed : ∀ call, ¬ (store.phases call).Passed

namespace Blocked

variable {content : Bytes}

theorem move (blocked : Blocked store content) {phase : CallPhase} (creates : ¬ phase.Creates)
    (passed : ¬ phase.Passed) (holder : Option Nat) :
    Blocked { store.move call phase with holder := holder } content where
  file := blocked.file
  unreadable := blocked.unreadable
  created := forall_move (P := fun _ phase => ¬ phase.Creates) creates
    fun other _ => blocked.created other
  passed := forall_move (P := fun _ phase => ¬ phase.Passed) passed
    fun other _ => blocked.passed other

theorem leave (blocked : Blocked store content) (call : Nat) :
    Blocked (store.leave call) content ∧ (store.leave call).log = store.log :=
  ⟨blocked.move id id _, rfl⟩

theorem openFile (blocked : Blocked store content) (call : Nat) :
    Blocked (store.openFile call (calls call)) content ∧
      (store.openFile call (calls call)).log = store.log := by
  rw [ReplayStore.openFile, blocked.file]
  split
  · exact blocked.leave call
  · rename_i absent
    cases absent
  · refine ⟨blocked.move ?_ id _, rfl⟩
    exact Bool.false_ne_true

theorem readFile (blocked : Blocked store content) (call : Nat) :
    Blocked (store.readFile call (calls call) false content) content ∧
      (store.readFile call (calls call) false content).log = store.log := by
  rw [ReplayStore.readFile]
  split
  · exact blocked.leave call
  · rename_i last read
    exact absurd read (blocked.unreadable last)

/-- No operation accepts a step or repairs the file. -/
theorem perform (blocked : Blocked store content) {event : ReplayEvent}
    (performed : store.perform calls event = some next) :
    Blocked next content ∧ next.log = store.log := by
  cases transition_of_perform performed with
  | enter call => exact blocked.openFile call
  | @lock call created opened free =>
      have creates := blocked.created call
      rw [opened] at creates
      refine ⟨blocked.move ?_ id _, rfl⟩
      exact creates
  | @read call created other locked file =>
      obtain rfl := Option.some.inj (blocked.file.symm.trans file)
      have creates := blocked.created call
      rw [locked] at creates
      rw [Bool.eq_false_of_not_eq_true creates]
      exact blocked.readFile call
  | truncate ready => exact absurd (passed_of_ready ready) (blocked.passed _)
  | write writing file fits => exact absurd (passed_of_writing writing) (blocked.passed _)
  | sync writing => exact absurd (passed_of_writing writing) (blocked.passed _)
  | release call => exact blocked.leave call
  | stop call => exact blocked.leave call

theorem run (blocked : Blocked store content) {later : ReplayStore}
    (run : Run calls AnyOperation store later) :
    Blocked later content ∧ later.log = store.log := by
  induction run with
  | refl => exact ⟨blocked, rfl⟩
  | step run _ performed ih =>
      obtain ⟨still, same⟩ := ih
      obtain ⟨blocked, unchanged⟩ := still.perform performed
      exact ⟨blocked, unchanged.trans same⟩

end Blocked

/-- A call that stops before its step is written leaves an empty file. -/
theorem Ordered.blocked_of_stopped (ordered : Ordered calls store) {rest : Bytes}
    (writing : store.phases call = .writing rest) (unwritten : rest ≠ []) :
    Blocked (store.leave call) [] := by
  have passed := passed_of_writing writing
  refine ⟨?_, lastStep_empty, ?_, ?_⟩
  · rcases ordered.written call rest writing with ⟨_, empty⟩ | ⟨none, _⟩
    · exact empty
    · exact absurd none unwritten
  · refine forall_move (P := fun _ phase => ¬ phase.Creates) id ?_
    intro other _ creates
    exact (ordered.created other creates).2.2.2 call passed
  · refine forall_move (P := fun _ phase => ¬ phase.Passed) id ?_
    intro other different also
    exact different (ordered.eq_of_holds passed.holds also.holds)

end ReplayStore

namespace ConsumeCall

/-- The step is above the last one of the wallet and above the legacy record. -/
def AboveRecords (call : ConsumeCall) : Prop :=
  (∀ last, call.walletLast = some last → last < call.step) ∧
    (call.legacy = .absent ∨ ∃ bytes last, call.legacy = .content bytes ∧
      legacyStep bytes = .ok last ∧ last < call.step)

theorem aboveRecords_of_checkRecords {call : ConsumeCall} (checked : call.checkRecords = .ok ()) :
    call.AboveRecords := by
  obtain ⟨_, wallet, legacy⟩ := Checked.bind_eq_ok.mp checked
  refine ⟨?_, ?_⟩
  · intro last known
    have above := Checked.rejectIf_eq_ok.mp wallet
    rw [known] at above
    simpa using above
  · rw [checkLegacy] at legacy
    split at legacy
    · rename_i absent
      exact .inl absent
    · cases legacy
    · cases legacy
    · rename_i bytes content
      obtain ⟨last, read, fresh⟩ := Checked.bind_eq_ok.mp legacy
      have above := Checked.rejectIf_eq_ok.mp fresh
      exact .inr ⟨bytes, last, content, read, by simpa using above⟩

end ConsumeCall

open ReplayStore

/-- In every run whose writes are whole, the accepted steps increase and are above the records
of the wallet.  No run accepts a step while the file holds none, and a call that stops between
the truncation and the write leaves such a file. -/
theorem accepted_steps_increase (calls : Nat → ConsumeCall) (file : Option Bytes) :
    (∀ store, Run calls WritesWhole (initial file) store →
      (store.log.map fun call => (calls call).step).Pairwise (· < ·) ∧
        ∀ call ∈ store.log, (calls call).AboveRecords) ∧
    (∀ store later content, Blocked store content → Run calls AnyOperation store later →
      later.log = store.log) ∧
    ∀ store next later call rest, Run calls WritesWhole (initial file) store →
      store.phases call = .writing rest → rest ≠ [] →
        store.perform calls (.stop call) = some next → Run calls AnyOperation next later →
          later.log = store.log := by
  refine ⟨?_, ?_, ?_⟩
  · intro store run
    have ordered := (ordered_initial file).run run
    exact ⟨ordered.increasing, fun call member =>
      ConsumeCall.aboveRecords_of_checkRecords (ordered.checked call member)⟩
  · intro store later content blocked run
    exact (blocked.run run).2
  · intro store next later call rest run writing unwritten stopped after
    have ordered := (ordered_initial file).run run
    rw [perform, writing] at stopped
    obtain rfl := Option.some.inj stopped
    exact ((ordered.blocked_of_stopped writing unwritten).run after).2

theorem run_of_performAll {calls : Nat → ConsumeCall} {events : List ReplayEvent}
    {permits : ReplayStore → ReplayEvent → Bool} {allowed : ReplayStore → ReplayEvent → Prop}
    (sound : ∀ store event, permits store event = true → allowed store event)
    {first store final : ReplayStore} (run : Run calls allowed first store)
    (performed : store.performAll calls permits events = some final) :
    Run calls allowed first final := by
  induction events generalizing store with
  | nil =>
      obtain rfl := Option.some.inj performed
      exact run
  | cons event events ih =>
      obtain ⟨next, once, rest⟩ := Option.bind_eq_some_iff.mp performed
      dsimp only at once
      split at once
      · rename_i permitted
        exact ih (run.step (sound store event permitted) once) rest
      · cases once

namespace ReplayedCode

def calls (call : Nat) : ConsumeCall := ⟨if call = 1 then 101 else 100, none, .absent⟩

/-- The first call is accepted, a second one with a higher step as well, and one more with the
first step is refused. -/
def wholeEvents : List ReplayEvent :=
  [.enter 0, .lock 0, .read 0, .truncate 0, .write 0 3, .sync 0, .enter 1, .release 0, .lock 1,
    .read 1, .truncate 1, .write 1 3, .sync 1, .release 1, .enter 2, .lock 2, .read 2]

/-- The second call stops after it has written one digit of its step. -/
def events : List ReplayEvent :=
  [.enter 0, .lock 0, .read 0, .truncate 0, .write 0 3, .sync 0, .release 0,
    .enter 1, .lock 1, .read 1, .truncate 1, .write 1 1, .stop 1,
    .enter 2, .lock 2, .read 2, .truncate 2, .write 2 3, .sync 2]

end ReplayedCode

/-- Two steps are accepted in a run of whole writes. -/
theorem accepted_steps_increase_of_two :
    ∃ store, Run ReplayedCode.calls WritesWhole (initial none) store ∧ store.log = [0, 1] ∧
      (store.log.map fun call => (ReplayedCode.calls call).step).Pairwise (· < ·) := by
  have performed : ((initial none).performAll ReplayedCode.calls writesWhole
      ReplayedCode.wholeEvents).map (fun store => store.log) = some [0, 1] := by decide
  obtain ⟨store, reached, log⟩ := Option.map_eq_some_iff.mp performed
  have run := run_of_performAll (fun _ _ => writesWhole_iff.mp) .refl reached
  exact ⟨store, run, log, ((accepted_steps_increase ReplayedCode.calls none).1 store run).1⟩

/-- After a write that was cut short, the step that was accepted before is accepted again. -/
theorem step_accepted_twice :
    ∃ store, Run ReplayedCode.calls AnyOperation (initial none) store ∧ store.log = [0, 2] ∧
      (ReplayedCode.calls 0).step = (ReplayedCode.calls 2).step := by
  have performed : ((initial none).performAll ReplayedCode.calls (fun _ _ => true)
      ReplayedCode.events).map (fun store => store.log) = some [0, 2] := by decide
  obtain ⟨store, reached, log⟩ := Option.map_eq_some_iff.mp performed
  exact ⟨store, run_of_performAll (fun _ _ _ => trivial) .refl reached, log, rfl⟩

end Vtorrent
