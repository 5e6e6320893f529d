/-
  Where log messages go.

  `ost_log_write` chooses its backend anew on every call: a registered callback, else the file
  named by the environment, else syslog, else nothing.  Whichever gives way has its resource closed on
  the spot: the descriptor of the log file, or the connection to syslog.  The line itself is
  emitted after the mutex is released, to a duplicate of the descriptor, so several
  calls may be emitting at a time, and the backend may change under them.

  Three things hold along every run: the priority of the backend never falls (`select_priority`), the
  fields of the state agree with the backend, and the books of the descriptors balance
  (`LogSys.Sound`).  The formatting of a line is not modelled, only its length.

  The proof:

  1. `select_cases` and `write_cases` list what the locked sections can do, so the functions are
     unfolded there and nowhere else;
  2. `Sound` is kept by each section (`Sound.select`, `Sound.close`, `Sound.reg`, `Sound.write`,
     `Sound.emit`).  The books are those of `OsTransport.Lib.Handles`: what was obtained is in
     somebody's hand or has been given back, once;
  3. `Sound.step` joins them, with the priority, and `log_backend` is the induction over runs.

  The witness has three messages and a registration, one of the messages being written to the file
  while the backend changes to the callback.
-/
import OsTransport.Lib.Handles
import OsTransport.Lib.Transition

namespace OsTransport

open Transition

/-! ## State

The backend and its resources, and the lines that are being written. -/

inductive OstLogBackend
  | uninitialized
  | file
  | syslog
  | callback
  | disabled
  deriving DecidableEq, Repr

/-- "callback > file > syslog > disabled/uninitialized". -/
def OstLogBackend.priority : OstLogBackend → Nat
  | .uninitialized => 0
  | .disabled => 0
  | .syslog => 1
  | .file => 2
  | .callback => 3

/-- `OstLogState`, without its mutex. -/
structure OstLogState where
  syslogOpened : Bool
  fd : Int
  callback : Option Nat
  logLevel : Int
  backend : OstLogBackend
  deriving DecidableEq, Repr

structure OstLogEmitTarget where
  backend : OstLogBackend
  fd : Int
  callback : Option Nat
  deriving DecidableEq, Repr

/-- What a call of `ost_log_write` finds outside: `OST_LOG_FILE_PATH`, the results of `open` and `dup`,
    and which paths exist. -/
structure LogEnv where
  filePath : Option String
  openResult : Int
  dupResult : Int
  pathExists : String → Bool

/-- The result of `write`, and whether `errno` is `EINTR`. -/
structure WriteResult where
  written : Int
  eintr : Bool

/-- What leaves the process. -/
inductive LogOutput
  | file (fd : Int) (written : Int)
  | syslog (priority : Int)
  | callback (callback : Nat) (logLevel : BitVec 32)
  deriving DecidableEq, Repr

/-- A call of `ost_log_write` that has released the mutex and not returned yet. -/
structure Emission where
  target : OstLogEmitTarget
  level : Int
  vlevel : Int
  deriving DecidableEq, Repr

/-- The log, the descriptors it has obtained, and the calls about to emit their line. -/
structure LogSys where
  state : OstLogState
  fds : Handles Int
  emitting : List Emission
  output : List LogOutput

def logLevelDebug : Int := -1
def logLevelInfo : Int := 0
def logLevelWarn : Int := 1
def logLevelError : Int := 2

/-- The static initialiser in `ost_log_state`, with `GLOBAL_LOG_LEVEL` as it is by default. -/
def LogSys.start : LogSys where
  state := ⟨false, -1, none, logLevelDebug, .uninitialized⟩
  fds := .empty
  emitting := []
  output := []

namespace LogSys

/-! ## Choosing the backend

The functions under the mutex. -/

/-- `ost_log_path_exists`. -/
def ostLogPathExists (env : LogEnv) (path : Option String) : Bool :=
  match path with
  | none => false
  | some path => if path = "" then false else env.pathExists path

/-- `ost_log_syslog_available_probe`. -/
def ostLogSyslogAvailableProbe (env : LogEnv) : Bool :=
  ostLogPathExists env "/dev/log" || ostLogPathExists env "/run/systemd/journal/dev-log" ||
    ostLogPathExists env "/run/systemd/journal/syslog"

/-- `ost_log_open_file_fd`. -/
def ostLogOpenFileFd (env : LogEnv) (path : Option String) : Int :=
  match path with
  | none => -1
  | some path => if path = "" then -1 else env.openResult

/-- `ost_log_close_locked`. -/
def ostLogCloseLocked (s : LogSys) : LogSys :=
  { s with
    fds := if s.state.fd ≥ 0 then s.fds.release s.state.fd else s.fds
    state := { s.state with
      fd := if s.state.fd ≥ 0 then -1 else s.state.fd
      syslogOpened := false
      backend := .uninitialized } }

/-- `ost_log_install_file_backend_locked`.  The kernel does not give out a descriptor twice. -/
def ostLogInstallFileBackendLocked (s : LogSys) (env : LogEnv) : Option (LogSys × Bool) :=
  let fd := ostLogOpenFileFd env env.filePath
  if fd < 0 then some (s, false)
  else (s.fds.acquire fd).map fun fds =>
    ({ s with
        fds := if s.state.fd ≥ 0 then fds.release s.state.fd else fds
        state := { s.state with syslogOpened := false, fd, backend := .file } }, true)

/-- `ost_log_select_backend_locked`. -/
def ostLogSelectBackendLocked (s : LogSys) (env : LogEnv) : Option LogSys :=
  if s.state.backend = .callback ∨ s.state.backend = .file then some s
  else
    match s.ostLogInstallFileBackendLocked env with
    | none => none
    | some (s, true) => some s
    | some (s, false) =>
      if s.state.backend = .syslog then some s
      else if ostLogSyslogAvailableProbe env then
        some { s with state := { s.state with syslogOpened := true, backend := .syslog } }
      else some { s with state := { s.state with backend := .disabled } }

/-- `os_transport_log_reg`, and what it returns. -/
def osTransportLogReg (s : LogSys) (level : Int) (cb : Option Nat) : LogSys × Int :=
  match cb with
  | none => (s, -1)
  | some cb =>
    let s := s.ostLogCloseLocked
    ({ s with state := { s.state with callback := cb, logLevel := level, backend := .callback } }, 0)

/-! ## Writing a line

A line is begun under the mutex and written out after it. -/

/-- The locked section of `ost_log_vwrite`. -/
def ostLogVwrite (s : LogSys) (level vlevel : Int) (env : LogEnv) : Option LogSys :=
  (s.ostLogSelectBackendLocked env).bind fun s =>
    if level < s.state.logLevel then some s
    else
      let callback := if s.state.backend = .callback then s.state.callback else none
      if s.state.backend = .file ∧ s.state.fd ≥ 0 then
        let target : OstLogEmitTarget := ⟨s.state.backend, env.dupResult, callback⟩
        if env.dupResult ≥ 0 then
          (s.fds.acquire env.dupResult).map fun fds =>
            { s with fds, emitting := s.emitting ++ [⟨target, level, vlevel⟩] }
        else some { s with emitting := s.emitting ++ [⟨target, level, vlevel⟩] }
      else some { s with emitting := s.emitting ++ [⟨⟨s.state.backend, -1, callback⟩, level, vlevel⟩] }

/-- The loop of `ost_log_write_fd_best_effort`: the bytes written when it ends.  `none` when the
    results of `write` are used up before. -/
def ostLogWriteFdBestEffort (len : Int) (total : Int) : List WriteResult → Option Int
  | [] => if total < len then none else some total
  | r :: rs =>
    if total < len then
      if r.written > 0 then ostLogWriteFdBestEffort len (total + r.written) rs
      else if r.written < 0 ∧ r.eintr then ostLogWriteFdBestEffort len total rs
      else some total
    else some total

/-- `ost_log_syslog_priority`: the values of `LOG_DEBUG`, `LOG_INFO`, `LOG_WARNING` and `LOG_ERR`. -/
def ostLogSyslogPriority (level : Int) : Int :=
  if level = logLevelDebug then 7
  else if level = logLevelInfo then 6
  else if level = logLevelWarn then 4
  else if level = logLevelError then 3
  else 6

/-- `ost_log_emit`, for a line of length `len`. -/
def ostLogEmit (e : Emission) (len : Nat) (results : List WriteResult) : Option (List LogOutput) :=
  match e.target.backend with
  | .file =>
    if e.target.fd ≥ 0 then
      (ostLogWriteFdBestEffort len 0 results).map fun total => [.file e.target.fd total]
    else some []
  | .syslog => some [.syslog (ostLogSyslogPriority e.level)]
  | .callback =>
    match e.target.callback with
    | none => some []
    | some cb =>
      let mask : BitVec 32 := 0xff#32
      some [.callback cb ((BitVec.ofInt 32 e.level &&& mask) ||| ((BitVec.ofInt 32 e.vlevel &&& mask) <<< 8))]
  | .disabled => some []
  | .uninitialized => some []

/-- The rest of `ost_log_vwrite`: emit the line, then close the duplicate. -/
def emit (s : LogSys) (i : Nat) (len : Nat) (results : List WriteResult) : Option LogSys :=
  match s.emitting[i]? with
  | none => none
  | some e =>
    (ostLogEmit e len results).map fun output =>
      { s with
        fds := if e.target.fd ≥ 0 then s.fds.release e.target.fd else s.fds
        emitting := s.emitting.eraseIdx i
        output := s.output ++ output }

end LogSys

inductive LogAction
  /-- `os_transport_log_reg(level, cb)`. -/
  | reg (level : Int) (cb : Option Nat)
  /-- `ost_log_write`, up to the release of the mutex. -/
  | write (level vlevel : Int) (env : LogEnv)
  /-- The `i`-th of the calls that are about to emit does so and returns. -/
  | emit (i : Nat) (len : Nat) (results : List WriteResult)

def LogSys.step (s : LogSys) : LogAction → Option LogSys
  | .reg level cb => some (s.osTransportLogReg level cb).1
  | .write level vlevel env => s.ostLogVwrite level vlevel env
  | .emit i len results => s.emit i len results

/-- All runs of the log. -/
def logSystem : System LogSys LogAction := .ofFun (· = LogSys.start) LogSys.step

/-! ## What holds along a run

The descriptors are numbered as `OsTransport.Lib.Handles` numbers resources. -/

/-- The descriptor of the log file, if there is one. -/
def LogSys.current (s : LogSys) : List Int := if s.state.fd ≥ 0 then [s.state.fd] else []

/-- The duplicates in the hands of calls that emit. -/
def inHand (emitting : List Emission) : List Int :=
  emitting.filterMap fun e => if e.target.fd ≥ 0 then some e.target.fd else none

/-- The fields agree with the backend, and the descriptors held are the current one and the
    duplicates. -/
structure LogSys.Sound (s : LogSys) : Prop where
  fd : 0 ≤ s.state.fd ↔ s.state.backend = .file
  syslog : s.state.syslogOpened = true ↔ s.state.backend = .syslog
  books : s.fds.Sound
  held : s.fds.names.Perm (s.current ++ inHand s.emitting)

namespace LogSys

variable {s s' : LogSys} {env : LogEnv}

/-- Nothing is open at the start. -/
theorem sound_start : LogSys.start.Sound where
  fd := by decide
  syslog := by decide
  books := Handles.sound_empty
  held := List.Perm.refl _

theorem inHand_append (l m : List Emission) : inHand (l ++ m) = inHand l ++ inHand m :=
  List.filterMap_append ..

/-- What selecting a backend may do: nothing, install the file, or fall back. -/
theorem select_cases (h : s.ostLogSelectBackendLocked env = some s') :
    s' = s ∨
    (∃ fd fds, s.state.backend ≠ .callback ∧ s.state.backend ≠ .file ∧ 0 ≤ fd ∧
      s.fds.acquire fd = some fds ∧
      s' = { s with
        fds := if s.state.fd ≥ 0 then fds.release s.state.fd else fds
        state := { s.state with syslogOpened := false, fd, backend := .file } }) ∨
    (s.state.backend.priority = 0 ∧
      (s' = { s with state := { s.state with syslogOpened := true, backend := .syslog } } ∨
        s' = { s with state := { s.state with backend := .disabled } })) := by
  unfold ostLogSelectBackendLocked at h
  split at h
  · cases h
    exact .inl rfl
  rename_i hbackend
  obtain ⟨hcallback, hfile⟩ := not_or.mp hbackend
  unfold ostLogInstallFileBackendLocked at h
  by_cases hfd : ostLogOpenFileFd env env.filePath < 0
  · -- no file: syslog is kept, tried or given up
    simp only [hfd, if_true] at h
    by_cases hsyslog : s.state.backend = .syslog
    · rw [if_pos hsyslog] at h
      cases h
      exact .inl rfl
    · rw [if_neg hsyslog] at h
      have hlow : s.state.backend.priority = 0 := by
        cases hb : s.state.backend <;> simp_all [OstLogBackend.priority]
      refine .inr (.inr ⟨hlow, ?_⟩)
      split at h <;> cases h
      · exact .inl rfl
      · exact .inr rfl
  · simp only [hfd, if_false] at h
    cases hacq : s.fds.acquire (ostLogOpenFileFd env env.filePath) with
    | none =>
      rw [hacq] at h
      cases h
    | some fds =>
      rw [hacq] at h
      cases h
      exact .inr (.inl ⟨_, fds, hcallback, hfile, by omega, hacq, rfl⟩)

/-- No backend comes before the callback. -/
theorem priority_le_three (b : OstLogBackend) : b.priority ≤ 3 := by
  cases b <;> decide

/-- A selection never steps back. -/
theorem select_priority (h : s.ostLogSelectBackendLocked env = some s') :
    s.state.backend.priority ≤ s'.state.backend.priority := by
  rcases select_cases h with rfl | ⟨fd, fds, hcallback, hfile, -, -, rfl⟩ | ⟨hlow, rfl | rfl⟩
  · exact Nat.le_refl _
  · show s.state.backend.priority ≤ 2
    cases hb : s.state.backend with
    | callback => exact absurd hb hcallback
    | file => exact absurd hb hfile
    | _ => decide
  · rw [hlow]
    exact Nat.zero_le _
  · rw [hlow]
    exact Nat.zero_le _

/-- Selecting a backend closes what gives way. -/
theorem Sound.select (hs : s.Sound) (h : s.ostLogSelectBackendLocked env = some s') :
    s'.Sound := by
  rcases select_cases h with rfl | ⟨fd, fds, -, hfile, hpos, hacq, rfl⟩ | ⟨hlow, rfl | rfl⟩
  · exact hs
  · obtain ⟨hbooks, hnames⟩ := hs.books.acquire hacq
    have hnone : ¬ s.state.fd ≥ 0 := fun hge => hfile (hs.fd.mp hge)
    have hheld := hs.held
    rw [LogSys.current, if_neg hnone, List.nil_append] at hheld
    refine ⟨⟨fun _ => rfl, fun _ => hpos⟩, by simp, ?_, ?_⟩
    · simp only [if_neg hnone]
      exact hbooks
    · simp only [LogSys.current, if_neg hnone, if_pos hpos, hnames]
      exact hheld.cons fd
  all_goals
    have hnot : s.state.backend ≠ .file ∧ s.state.backend ≠ .syslog := by
      constructor <;> intro hb <;> rw [hb] at hlow <;> cases hlow
    have hfd : ¬ 0 ≤ s.state.fd := fun hge => hnot.1 (hs.fd.mp hge)
  · exact ⟨by simp [hfd], by simp, hs.books, hs.held⟩
  · have hopened : s.state.syslogOpened ≠ true := fun ho => hnot.2 (hs.syslog.mp ho)
    exact ⟨by simp [hfd], by simp [hopened], hs.books, hs.held⟩

/-- Closing gives back what is open, and leaves to the writers what they have in hand. -/
theorem Sound.close (hs : s.Sound) :
    s.ostLogCloseLocked.fds.Sound ∧ s.ostLogCloseLocked.state.fd < 0 ∧
      s.ostLogCloseLocked.fds.names.Perm (inHand s.emitting) := by
  have hheld := hs.held
  unfold LogSys.current at hheld
  by_cases hfd : s.state.fd ≥ 0
  · rw [if_pos hfd] at hheld
    have hmem : s.state.fd ∈ s.fds.names := by
      apply hheld.mem_iff.mpr
      exact List.mem_append_left _ (List.mem_singleton_self _)
    obtain ⟨hbooks, hnames⟩ := hs.books.release hmem
    simp only [ostLogCloseLocked, if_pos hfd]
    exact ⟨hbooks, by decide, (hnames.trans hheld).cons_inv⟩
  · rw [if_neg hfd] at hheld
    simp only [ostLogCloseLocked, if_neg hfd]
    exact ⟨hs.books, by omega, hheld⟩

/-- Registering a callback keeps the descriptors right. -/
theorem Sound.reg (hs : s.Sound) (level : Int) (cb : Option Nat) : (s.osTransportLogReg level cb).1.Sound := by
  cases cb with
  | none => exact hs
  | some cb =>
    obtain ⟨hbooks, hfd, hnames⟩ := hs.close
    have hfd' : ¬ s.ostLogCloseLocked.state.fd ≥ 0 := by omega
    refine ⟨?_, ?_, hbooks, ?_⟩
    · show 0 ≤ s.ostLogCloseLocked.state.fd ↔ OstLogBackend.callback = .file
      simp [hfd]
    · show s.ostLogCloseLocked.state.syslogOpened = true ↔ OstLogBackend.callback = .syslog
      simp [ostLogCloseLocked]
    · show s.ostLogCloseLocked.fds.names.Perm
        ((if s.ostLogCloseLocked.state.fd ≥ 0 then [s.ostLogCloseLocked.state.fd] else []) ++
          inHand s.emitting)
      rw [if_neg hfd']
      exact hnames

/-- A call that has an emission in hand takes its duplicate along. -/
theorem Sound.hand {fds : Handles Int} {e : Emission} (hs : s.Sound) (hbooks : fds.Sound)
    (hnames : fds.names = (if e.target.fd ≥ 0 then [e.target.fd] else []) ++ s.fds.names) :
    LogSys.Sound { s with fds, emitting := s.emitting ++ [e] } := by
  refine ⟨hs.fd, hs.syslog, hbooks, ?_⟩
  show fds.names.Perm (s.current ++ inHand (s.emitting ++ [e]))
  have hnew : inHand [e] = if e.target.fd ≥ 0 then [e.target.fd] else [] := by
    simp only [inHand, List.filterMap_cons, List.filterMap_nil]
    split <;> rename_i he <;> split at he <;> simp_all
  rw [inHand_append, hnew, hnames, ← List.append_assoc]
  exact (List.perm_append_comm).trans (hs.held.append_right _)

/-- What the locked section of a write may do once the backend is selected: nothing, or take a line
    in hand, with a duplicate of the descriptor or without. -/
theorem write_cases {level vlevel : Int} (h : s.ostLogVwrite level vlevel env = some s') :
    ∃ s₁, s.ostLogSelectBackendLocked env = some s₁ ∧ (s' = s₁ ∨ ∃ e : Emission,
      (e.target.fd < 0 ∧ s' = { s₁ with emitting := s₁.emitting ++ [e] }) ∨
      ∃ fds, 0 ≤ e.target.fd ∧ s₁.fds.acquire e.target.fd = some fds ∧
        s' = { s₁ with fds, emitting := s₁.emitting ++ [e] }) := by
  obtain ⟨s₁, hsel, h⟩ := Option.bind_eq_some_iff.mp h
  refine ⟨s₁, hsel, ?_⟩
  by_cases hlevel : level < s₁.state.logLevel
  · rw [if_pos hlevel] at h
    exact .inl (Option.some.inj h).symm
  right
  simp only [if_neg hlevel] at h
  by_cases hfile : s₁.state.backend = .file ∧ s₁.state.fd ≥ 0
  · rw [if_pos hfile] at h
    by_cases hdup : env.dupResult ≥ 0
    · rw [if_pos hdup] at h
      obtain ⟨fds, hacq, rfl⟩ := Option.map_eq_some_iff.mp h
      exact ⟨_, .inr ⟨fds, hdup, hacq, rfl⟩⟩
    · rw [if_neg hdup] at h
      exact ⟨_, .inl ⟨Int.not_le.mp hdup, (Option.some.inj h).symm⟩⟩
  · rw [if_neg hfile] at h
    exact ⟨_, .inl ⟨show (-1 : Int) < 0 by decide, (Option.some.inj h).symm⟩⟩

/-- So does a line that is begun. -/
theorem Sound.write {level vlevel : Int} (hs : s.Sound) (h : s.ostLogVwrite level vlevel env = some s') :
    s'.Sound := by
  obtain ⟨s₁, hsel, rfl | ⟨e, ⟨hneg, rfl⟩ | ⟨fds, hpos, hacq, rfl⟩⟩⟩ := write_cases h
  · exact hs.select hsel
  · refine (hs.select hsel).hand (hs.select hsel).books ?_
    rw [if_neg (Int.not_le.mpr hneg)]
    rfl
  · obtain ⟨hbooks, hnames⟩ := (hs.select hsel).books.acquire hacq
    refine (hs.select hsel).hand hbooks ?_
    rw [if_pos hpos, hnames]
    rfl

/-- So does one that is written out. -/
theorem Sound.emit {i len : Nat} {results : List WriteResult} (hs : s.Sound)
    (h : s.emit i len results = some s') : s'.Sound := by
  unfold LogSys.emit at h
  split at h
  · cases h
  rename_i e he
  obtain ⟨output, -, rfl⟩ := Option.map_eq_some_iff.mp h
  obtain ⟨hi, hget⟩ := List.getElem?_eq_some_iff.mp he
  have hperm : (e :: s.emitting.eraseIdx i).Perm s.emitting := by
    rw [← hget]
    exact List.getElem_cons_eraseIdx_perm hi
  have hhand : (inHand (e :: s.emitting.eraseIdx i)).Perm (inHand s.emitting) := hperm.filterMap _
  have hsplit : inHand (e :: s.emitting.eraseIdx i) =
      (if e.target.fd ≥ 0 then [e.target.fd] else []) ++ inHand (s.emitting.eraseIdx i) := by
    simp only [inHand, List.filterMap_cons]
    split <;> rename_i heq <;> split at heq <;> simp_all
  have hheld : s.fds.names.Perm
      ((if e.target.fd ≥ 0 then [e.target.fd] else []) ++ (s.current ++ inHand (s.emitting.eraseIdx i))) := by
    refine hs.held.trans ?_
    refine (hhand.symm.append_left _).trans ?_
    rw [hsplit, ← List.append_assoc, ← List.append_assoc]
    exact (List.perm_append_comm).append_right _
  by_cases hfd : e.target.fd ≥ 0
  · rw [if_pos hfd] at hheld
    have hmem : e.target.fd ∈ s.fds.names := by
      apply hheld.mem_iff.mpr
      exact List.mem_append_left _ (List.mem_singleton_self _)
    obtain ⟨hbooks, hnames⟩ := hs.books.release hmem
    refine ⟨hs.fd, hs.syslog, ?_, ?_⟩
    · simp only [if_pos hfd]
      exact hbooks
    · simp only [if_pos hfd]
      exact (hnames.trans hheld).cons_inv
  · rw [if_neg hfd] at hheld
    refine ⟨hs.fd, hs.syslog, ?_, ?_⟩
    · simp only [if_neg hfd]
      exact hs.books
    · simp only [if_neg hfd]
      exact hheld

/-- One step, of whatever call, keeps the books and does not lower the priority. -/
theorem Sound.step {a : LogAction} (hs : s.Sound) (h : s.step a = some s') :
    s'.Sound ∧ s.state.backend.priority ≤ s'.state.backend.priority := by
  cases a with
  | reg level cb =>
    obtain rfl := Option.some.inj h
    refine ⟨hs.reg level cb, ?_⟩
    cases cb with
    | none => exact Nat.le_refl _
    | some cb => exact priority_le_three _
  | write level vlevel env =>
    refine ⟨hs.write h, ?_⟩
    obtain ⟨s₁, hsel, hrest⟩ := write_cases h
    have hprio := select_priority hsel
    rcases hrest with rfl | ⟨e, ⟨-, rfl⟩ | ⟨fds, -, -, rfl⟩⟩
    all_goals exact hprio
  | emit i len results =>
    refine ⟨hs.emit h, ?_⟩
    simp only [LogSys.step, LogSys.emit] at h
    split at h
    · cases h
    · obtain ⟨output, -, rfl⟩ := Option.map_eq_some_iff.mp h
      exact Nat.le_refl _

/-- In every run the descriptors are right. -/
theorem sound_reach {ok : LogSys → LogAction → Prop} (h : logSystem.Reach ok s) : s.Sound := by
  refine h.invariant ?_ ?_
  · rintro s rfl
    exact sound_start
  · intro s a s' _ hI _ hs
    exact (hI.step hs).1

end LogSys

/-- What is owed for every descriptor `open` or `dup` has returned, the `k`-th: it is the current one,
    or the duplicate of a call that is emitting, or it was closed, once. -/
structure LogSys.Consistent (s : LogSys) : Prop where
  fd : 0 ≤ s.state.fd ↔ s.state.backend = .file
  syslog : s.state.syslogOpened = true ↔ s.state.backend = .syslog
  closedOnce : ∀ k, k < s.fds.acquired →
    (∃ fd, (fd, k) ∈ s.fds.held ∧ 0 ≤ fd ∧
      (fd = s.state.fd ∨ ∃ e ∈ s.emitting, e.target.fd = fd)) ∧ s.fds.released.count k = 0 ∨
    (∀ fd, (fd, k) ∉ s.fds.held) ∧ s.fds.released.count k = 1
  /-- Between the calls it is the current one, or it was closed. -/
  between : s.emitting = [] → ∀ k, k < s.fds.acquired →
    0 ≤ s.state.fd ∧ (s.state.fd, k) ∈ s.fds.held ∧ s.fds.released.count k = 0 ∨
      s.fds.released.count k = 1
  /-- No descriptor is closed that is not open. -/
  noFault : s.fds.faults = 0

/-- Sound descriptors are consistent. -/
theorem LogSys.Sound.consistent {s : LogSys} (hs : s.Sound) : s.Consistent := by
  have honce : ∀ k, k < s.fds.acquired →
      (∃ fd, (fd, k) ∈ s.fds.held ∧ 0 ≤ fd ∧
        (fd = s.state.fd ∨ ∃ e ∈ s.emitting, e.target.fd = fd)) ∧ s.fds.released.count k = 0 ∨
      (∀ fd, (fd, k) ∉ s.fds.held) ∧ s.fds.released.count k = 1 := by
    intro k hk
    refine (hs.books.once hk).imp_left fun ⟨⟨fd, hfd⟩, hcount⟩ => ⟨⟨fd, hfd, ?_⟩, hcount⟩
    have hmem : fd ∈ s.current ++ inHand s.emitting := by
      apply hs.held.mem_iff.mp
      exact List.mem_map.mpr ⟨_, hfd, rfl⟩
    rcases List.mem_append.mp hmem with hcur | hhand
    · unfold LogSys.current at hcur
      split at hcur
      · rename_i hpos
        obtain rfl := List.mem_singleton.mp hcur
        exact ⟨hpos, .inl rfl⟩
      · cases hcur
    · obtain ⟨e, he, heq⟩ := List.mem_filterMap.mp hhand
      split at heq
      · rename_i hpos
        cases heq
        exact ⟨hpos, .inr ⟨e, he, rfl⟩⟩
      · cases heq
  refine ⟨hs.fd, hs.syslog, honce, fun hnone k hk => ?_, hs.books.faults⟩
  rcases honce k hk with ⟨⟨fd, hfd, hpos, rfl | ⟨e, he, -⟩⟩, hcount⟩ | ⟨-, hcount⟩
  · exact .inl ⟨hpos, hfd, hcount⟩
  · rw [hnone] at he
    cases he
  · exact .inr hcount

/-- **The log's backend.**  In every run of writes and registrations, whatever the environment does
    and however the calls overlap: what is reached is consistent, and from there on the
    priority of the backend never falls. -/
theorem log_backend {s s' : LogSys} {ok : LogSys → LogAction → Prop} (h : logSystem.Reach ok s)
    (h' : (System.ofFun (· = s) LogSys.step).Reach ok s') :
    s.state.backend.priority ≤ s'.state.backend.priority ∧ s'.Consistent := by
  refine ⟨?_, (LogSys.sound_reach (h.trans h')).consistent⟩
  refine h'.invariant (I := fun s' => s.state.backend.priority ≤ s'.state.backend.priority) ?_ ?_
  · rintro s' rfl
    exact Nat.le_refl _
  · intro s₁ a s₂ hr hI _ hs
    exact Nat.le_trans hI ((LogSys.sound_reach (h.trans hr)).step hs).2

/-- The socket of syslog exists; a log file can be opened iff it is named. -/
def logEnv (filePath : Option String) (openResult dupResult : Int) : LogEnv :=
  ⟨filePath, openResult, dupResult, fun path => path == "/dev/log"⟩

/-- A message goes to syslog; the file is named and takes over, while a second message is being
    emitted a callback is registered, and a third message goes to it. -/
def overtaken : List LogAction :=
  [.write 0 (-1) (logEnv none 0 0), .emit 0 10 [], .write 2 (-1) (logEnv (some "/tmp/ost.log") 3 4),
    .reg 0 (some 7), .emit 0 10 [⟨6, false⟩, ⟨-1, true⟩, ⟨4, false⟩], .write 1 5 (logEnv none 0 0),
    .emit 0 10 []]

/-- A line to the file is overtaken by a change to the callback. -/
theorem log_backend_overtaken : ∃ s : LogSys, s.Consistent ∧ s.state.backend = .callback ∧
    s.fds.acquired = 2 ∧ s.fds.released = [0, 1] ∧
    s.output = [.syslog 6, .file 4 10, .callback 7 0x501#32] := by
  have hrun : (exec (fun _ _ => true) LogSys.step LogSys.start overtaken).any (fun s =>
      s.state.backend == .callback && s.fds.acquired == 2 && s.fds.released == [0, 1] &&
        s.output == [.syslog 6, .file 4 10, .callback 7 0x501#32]) = true := by
    decide +kernel
  have hok : ∀ (_ : LogSys) (_ : LogAction), true = true → True := fun _ _ _ => trivial
  obtain ⟨s, hr, hP⟩ := System.Reach.of_exec (· = LogSys.start) _ hok rfl overtaken _ hrun
  simp only [Bool.and_eq_true, beq_iff_eq] at hP
  obtain ⟨⟨⟨hbackend, hacquired⟩, hreleased⟩, houtput⟩ := hP
  exact ⟨s, (log_backend hr (.init rfl)).2, hbackend, hacquired, hreleased, houtput⟩

end OsTransport
