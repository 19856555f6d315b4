import ContainerRs.DockerTar
import ContainerRs.Lib.Runs

/-!
# The Archive Builder in Place

The builder of docker_tar.rs appends to one buffer that its caller keeps: a call that fails
leaves whatever it has written so far behind. `append_file` decides whether the entry fits
before it writes anything. `append_directory` writes the header first and checks the limit
afterwards, and does not take the header back.

A session is one builder together with the entries of the calls that have succeeded.

## Main results

* `AppendCall.applyInPlace_cases`: what one call can do.
* `BuilderSession.wellBuilt_call`: calls that do not overrun keep the buffer an encoding of the
  entries, within the limit.
* `ustarBuilder_atomic_iff`: a sequence of calls keeps the limit and fails atomically exactly
  when no directory is put on a full buffer.
-/

namespace ContainerRs

open Checked Outcomes Positional Runs Slices Ustar

namespace UstarBuilder

/-- Append a directory in place: the header is written before the limit is checked. -/
def appendDirectoryInPlace (b : UstarBuilder) (path : Bytes) (mode uid gid : UInt32) :
    Except CopyToContainerError Unit × UstarBuilder :=
  if path.getLast? ≠ some slash then
    (.error (pathErr "directory tar entry path must end with a slash"), b)
  else
    match appendHeader b.buf path typeflagDirectory 0 mode uid gid with
    | .error e => (.error e, b)
    | .ok buf => (({ buf } : UstarBuilder).checkLimit path, { buf })

/-- Append a regular file in place. -/
def appendFileInPlace (b : UstarBuilder) (path data : Bytes) (mode uid gid : UInt32) :
    Except CopyToContainerError Unit × UstarBuilder :=
  if path.getLast? = some slash then
    (.error (pathErr "file tar entry path must not end with a slash"), b)
  else
    let pad := (blockSize - data.length % blockSize) % blockSize
    let projected := b.buf.length + blockSize + data.length + pad
    if projected > usizeMax then (.error (overflowErr "tar size overflow"), b)
    else if projected > dockerResponseBodyLimit then
      (.error (.sizeLimitExceeded dockerResponseBodyLimit path), b)
    else
      match appendHeader b.buf path typeflagRegular data.length mode uid gid with
      | .error e => (.error e, b)
      | .ok buf => (.ok (), { buf := buf ++ data ++ zeros pad })

end UstarBuilder

namespace AppendCall

/-- Make the call in place. -/
def applyInPlace (b : UstarBuilder) : AppendCall → Except CopyToContainerError Unit × UstarBuilder
  | .file path data mode uid gid => b.appendFileInPlace path data mode uid gid
  | .directory path mode uid gid => b.appendDirectoryInPlace path mode uid gid

/-- The call is for a directory that is acceptable in every respect, and the buffer has no
room for its header. -/
def Overruns (b : UstarBuilder) : AppendCall → Prop
  | .file .. => False
  | .directory path _ uid gid =>
      path.getLast? = some slash ∧ uid.toNat ≤ octal7DigitMax ∧ gid.toNat ≤ octal7DigitMax ∧
        (splitUstarPath path).isOk ∧ dockerResponseBodyLimit < b.buf.length + blockSize

end AppendCall

/-! ### One call -/

/-- When a header is written. The numbers are checked first, then the path is split, and
nothing else fails. -/
theorem appendHeader_isOk_iff (out path : Bytes) (typeflag : UInt8) (size : ℕ)
    (mode uid gid : UInt32) :
    (appendHeader out path typeflag size mode uid gid).isOk ↔
      uid.toNat ≤ octal7DigitMax ∧ gid.toNat ≤ octal7DigitMax ∧ size ≤ octal11DigitMax ∧
        (splitUstarPath path).isOk := by
  rw [appendHeader]
  split
  · next huid => simp [Except.isOk, Except.toBool, Nat.not_le.mpr huid]
  next huid =>
  split
  · next hgid => simp [Except.isOk, Except.toBool, Nat.not_le.mpr hgid]
  next hgid =>
  split
  · next hsize => simp [Except.isOk, Except.toBool, Nat.not_le.mpr hsize]
  next hsize =>
  cases hsplit : splitUstarPath path with
  | error e => simp [bind, Except.bind, Except.isOk, Except.toBool]
  | ok parts =>
      simp [bind, Except.bind, Except.isOk, Except.toBool, Nat.not_lt.mp huid,
        Nat.not_lt.mp hgid, Nat.not_lt.mp hsize]

/-- A header that is written is one block. -/
theorem length_appendHeader {out out' path : Bytes} {typeflag : UInt8} {size : ℕ}
    {mode uid gid : UInt32} (h : appendHeader out path typeflag size mode uid gid = .ok out') :
    out'.length = out.length + blockSize := by
  obtain ⟨name, pre, hsplit, -, -, -, rfl⟩ := appendHeader_eq_ok h
  obtain ⟨hname, hpre, -⟩ := splitUstarPath_spec hsplit
  rw [List.length_append, length_headerBlock _ _ _ _ _ hname hpre]

namespace AppendCall

/-- A file is checked before anything is written. All that can fail is in front of the
header, so an error leaves the builder as it was. -/
theorem applyInPlace_file (b : UstarBuilder) (path data : Bytes) (mode uid gid : UInt32) :
    (∃ b', (file path data mode uid gid).apply b = .ok b' ∧
        (file path data mode uid gid).applyInPlace b = (.ok (), b') ∧
        b'.buf.length ≤ dockerResponseBodyLimit) ∨
      ∃ e, (file path data mode uid gid).apply b = .error e ∧
        (file path data mode uid gid).applyInPlace b = (.error e, b) := by
  simp only [apply, UstarBuilder.appendFile, applyInPlace, UstarBuilder.appendFileInPlace]
  split
  · exact .inr ⟨_, rfl, rfl⟩
  split
  · exact .inr ⟨_, rfl, rfl⟩
  split
  · exact .inr ⟨_, rfl, rfl⟩
  next hlimit =>
  cases hheader : appendHeader b.buf path typeflagRegular data.length mode uid gid with
  | error e => exact .inr ⟨e, rfl, rfl⟩
  | ok buf =>
      refine .inl ⟨_, rfl, rfl, ?_⟩
      have hlength := length_appendHeader hheader
      rw [List.length_append, List.length_append, length_zeros]
      omega

/-- The limit of a directory is checked when its header has been written. So there are
three ends: both succeed, both fail at the header, or the header is left behind. -/
theorem applyInPlace_directory (b : UstarBuilder) (path : Bytes) (mode uid gid : UInt32) :
    (∃ b', (directory path mode uid gid).apply b = .ok b' ∧
        (directory path mode uid gid).applyInPlace b = (.ok (), b') ∧
        ¬ (directory path mode uid gid).Overruns b ∧
        b'.buf.length ≤ dockerResponseBodyLimit) ∨
      (∃ e, (directory path mode uid gid).apply b = .error e ∧
        (directory path mode uid gid).applyInPlace b = (.error e, b) ∧
        ¬ (directory path mode uid gid).Overruns b) ∨
      ∃ e b', (directory path mode uid gid).apply b = .error e ∧
        (directory path mode uid gid).applyInPlace b = (.error e, b') ∧
        (directory path mode uid gid).Overruns b ∧
        b'.buf.length = b.buf.length + blockSize := by
  simp only [apply, UstarBuilder.appendDirectory, applyInPlace,
    UstarBuilder.appendDirectoryInPlace, Overruns]
  split
  · next hslash => exact .inr (.inl ⟨_, rfl, rfl, fun h => hslash h.1⟩)
  next hslash =>
  have hok := appendHeader_isOk_iff b.buf path typeflagDirectory 0 mode uid gid
  cases hheader : appendHeader b.buf path typeflagDirectory 0 mode uid gid with
  | error e =>
      refine .inr (.inl ⟨e, rfl, rfl, ?_⟩)
      rintro ⟨-, huid, hgid, hsplit, -⟩
      rw [hheader] at hok
      exact absurd (hok.mpr ⟨huid, hgid, Nat.zero_le _, hsplit⟩) Bool.false_ne_true
  | ok buf =>
      have hlength := length_appendHeader hheader
      rw [hheader] at hok
      obtain ⟨huid, hgid, -, hsplit⟩ := hok.mp rfl
      by_cases hlimit : buf.length > dockerResponseBodyLimit
      · simp only [bind, Except.bind, UstarBuilder.checkLimit, if_pos hlimit]
        refine .inr (.inr ⟨_, _, rfl, rfl, ⟨not_not.mp hslash, huid, hgid, hsplit, ?_⟩,
          hlength⟩)
        rw [← hlength]
        exact hlimit
      · simp only [bind, Except.bind, UstarBuilder.checkLimit, if_neg hlimit]
        refine .inl ⟨_, rfl, rfl, fun hover => hlimit ?_, Nat.not_lt.mp hlimit⟩
        rw [hlength]
        exact hover.2.2.2.2

/-- **One call in place**: it succeeds as the pure call does; it fails and leaves the buffer
alone; or it fails and leaves a header behind. -/
theorem applyInPlace_cases (b : UstarBuilder) (call : AppendCall) :
    (∃ b', call.apply b = .ok b' ∧ call.applyInPlace b = (.ok (), b') ∧
        ¬ call.Overruns b ∧ b'.buf.length ≤ dockerResponseBodyLimit) ∨
      (∃ e, call.apply b = .error e ∧ call.applyInPlace b = (.error e, b) ∧
        ¬ call.Overruns b) ∨
      ∃ e b', call.apply b = .error e ∧ call.applyInPlace b = (.error e, b') ∧
        call.Overruns b ∧ b'.buf.length = b.buf.length + blockSize := by
  cases call with
  | file path data mode uid gid =>
      rcases applyInPlace_file b path data mode uid gid with ⟨b', happly, hplace, hlength⟩ |
        ⟨e, happly, hplace⟩
      · exact .inl ⟨b', happly, hplace, not_false, hlength⟩
      · exact .inr (.inl ⟨e, happly, hplace, not_false⟩)
  | directory path mode uid gid => exact applyInPlace_directory b path mode uid gid

end AppendCall

/-! ### Sessions -/

/-- A builder and the entries of the calls that have succeeded. -/
structure BuilderSession where
  builder : UstarBuilder
  kept : List Entry
  deriving DecidableEq, Repr

namespace BuilderSession

/-- A new builder. -/
def new : BuilderSession := { builder := UstarBuilder.new, kept := [] }

/-- One call: its entry counts if it succeeds, and what it leaves in the buffer stays. -/
def call (s : BuilderSession) (c : AppendCall) : BuilderSession :=
  match c.applyInPlace s.builder with
  | (.ok (), builder) => { builder, kept := s.kept ++ [c.entry] }
  | (.error _, builder) => { s with builder }

/-- Every call is possible at any time. -/
def step (s : BuilderSession) (c : AppendCall) : Option BuilderSession := some (s.call c)

/-- A call in this state keeps the limit and whole blocks, leaves the buffer alone if it
fails, and an archive finished after it is one of exactly the entries that count; there is
one as long as the two closing blocks fit. -/
def Atomic (s : BuilderSession) (c : AppendCall) : Prop :=
  (s.call c).builder.buf.length % 512 = 0 ∧
    (s.call c).builder.buf.length ≤ 64 * 1024 * 1024 ∧
    (∀ e builder, c.applyInPlace s.builder = (.error e, builder) → builder = s.builder) ∧
    ((s.call c).builder.buf.length + 1024 ≤ 64 * 1024 * 1024 →
      (s.call c).builder.finish.isOk) ∧
    ∀ archive, (s.call c).builder.finish = .ok archive →
      readArchive archive = some (s.call c).kept

/-- The buffer is an encoding of the entries that count, within the limit. -/
def WellBuilt (s : BuilderSession) : Prop :=
  (∃ parts, s.builder.buf = parts.flatten ∧ List.Forall₂ IsEncoding parts s.kept) ∧
    s.builder.buf.length ≤ dockerResponseBodyLimit

/-- A new builder has no entries and is within its limit. -/
theorem wellBuilt_new : new.WellBuilt := ⟨⟨[], rfl, .nil⟩, Nat.zero_le _⟩

/-- **The step lemma**: a call that does not overrun keeps the session well built, and
changes nothing if it fails. -/
theorem wellBuilt_call {s : BuilderSession} {c : AppendCall} (hs : s.WellBuilt)
    (hc : ¬ c.Overruns s.builder) :
    (s.call c).WellBuilt ∧
      ∀ e builder, c.applyInPlace s.builder = (.error e, builder) → builder = s.builder := by
  obtain ⟨⟨parts, hbuf, hparts⟩, hlimit⟩ := hs
  rcases c.applyInPlace_cases s.builder with ⟨b', happly, hplace, -, hlength⟩ |
    ⟨e, -, hplace, -⟩ | ⟨e, b', -, -, hover, -⟩
  · have hcall : s.call c = { builder := b', kept := s.kept ++ [c.entry] } := by
      rw [call, hplace]
    obtain ⟨part, hpart, hencoding⟩ := AppendCall.isEncoding happly
    refine ⟨?_, fun e builder h => absurd (hplace.symm.trans h) (by simp)⟩
    rw [hcall]
    refine ⟨⟨parts ++ [part], ?_, ?_⟩, hlength⟩
    · rw [hpart, hbuf, List.flatten_append, List.flatten_singleton]
    · exact List.rel_append hparts (.cons hencoding .nil)
  · have hcall : s.call c = s := by
      rw [call, hplace]
    rw [hcall]
    refine ⟨⟨⟨parts, hbuf, hparts⟩, hlimit⟩, fun e' builder h => ?_⟩
    rw [hplace] at h
    exact (Prod.mk.inj h).2.symm
  · exact absurd hover hc

/-- A well-built buffer fills whole blocks. -/
theorem WellBuilt.mod {s : BuilderSession} (hs : s.WellBuilt) :
    s.builder.buf.length % blockSize = 0 := by
  obtain ⟨⟨parts, hbuf, hparts⟩, -⟩ := hs
  rw [hbuf]
  exact length_flatten_mod hparts

/-- A finished archive of a well-built session is one of its entries. -/
theorem WellBuilt.readArchive_finish {s : BuilderSession} (hs : s.WellBuilt) {archive : Bytes}
    (h : s.builder.finish = .ok archive) : readArchive archive = some s.kept := by
  obtain ⟨⟨parts, hbuf, hparts⟩, -⟩ := hs
  obtain ⟨rfl, -⟩ := UstarBuilder.finish_spec h
  rw [hbuf]
  exact readArchive_append hparts

end BuilderSession

/-- An archive is finished as long as the two closing blocks fit. -/
theorem UstarBuilder.finish_isOk {b : UstarBuilder}
    (h : b.buf.length + 1024 ≤ dockerResponseBodyLimit) : b.finish.isOk := by
  have hfits : ¬ (b.buf ++ zeros (blockSize * 2)).length > dockerResponseBodyLimit := by
    rw [List.length_append, length_zeros, blockSize]
    omega
  simp only [finish, bind, Except.bind, checkLimit, if_neg hfits]
  rfl

namespace BuilderSession

/-- A call that overruns is not atomic: the header it wrote is left behind. -/
theorem Atomic.not_overruns {s : BuilderSession} {c : AppendCall} (h : s.Atomic c) :
    ¬ c.Overruns s.builder := by
  obtain ⟨-, -, hsame, -, -⟩ := h
  rcases c.applyInPlace_cases s.builder with ⟨b', -, -, hnot, -⟩ | ⟨e, -, -, hnot⟩ |
    ⟨e, b', -, hplace, -, hlength⟩
  · exact hnot
  · exact hnot
  · rw [hsame e b' hplace, blockSize] at hlength
    omega

/-- In a well-built session a call that does not overrun is atomic. -/
theorem WellBuilt.atomic {s : BuilderSession} (hs : s.WellBuilt) {c : AppendCall}
    (hc : ¬ c.Overruns s.builder) : s.Atomic c := by
  obtain ⟨hcall, hsame⟩ := wellBuilt_call hs hc
  exact ⟨hcall.mod, hcall.2, hsame, UstarBuilder.finish_isOk,
    fun archive => hcall.readArchive_finish⟩

/-- A session whose calls do not overrun stays well built. By induction on the calls that
are left: a call that does not overrun keeps the session well built, whether it succeeds
or not. -/
theorem always_wellBuilt {calls : List AppendCall}
    (h : StepsMeet step new calls fun s c => ¬ c.Overruns s.builder) :
    Always step new calls WellBuilt := by
  have hrun : ∀ (s : BuilderSession) (cs : List AppendCall), ∃ t, run step s cs = some t := by
    intro s cs
    induction cs generalizing s with
    | nil => exact ⟨s, rfl⟩
    | cons c cs ih => exact ih (s.call c)
  obtain ⟨t, ht⟩ := hrun new calls
  have hany : Always step new calls fun _ => True := fun _ _ _ _ _ => trivial
  refine always_of_stepsMeet ?_ hany wellBuilt_new ht h
  intro s c s' _ hs hstep hc
  obtain rfl := Option.some.inj hstep
  exact (wellBuilt_call hs hc).1

end BuilderSession

/-- **The limit and atomic failure**: over any sequence of calls on one builder, every call
leaves whole blocks within the limit, changes nothing if it fails and leaves an archive of
exactly the entries of the calls that succeeded, if and only if no call is for an acceptable
directory on a buffer without room for its header. -/
theorem ustarBuilder_atomic_iff (calls : List AppendCall) :
    StepsMeet BuilderSession.step BuilderSession.new calls BuilderSession.Atomic ↔
      StepsMeet BuilderSession.step BuilderSession.new calls fun s c => ¬ c.Overruns s.builder := by
  constructor
  · intro h pre c post t hsplit hrun
    exact (h pre c post t hsplit hrun).not_overruns
  · intro h pre c post t hsplit hrun
    have hwell := BuilderSession.always_wellBuilt h pre (c :: post) t hsplit hrun
    exact hwell.atomic (h pre c post t hsplit hrun)

/-- The data of a file that, with its header, fills the buffer exactly. -/
def fillingData : Bytes := zeros (64 * 1024 * 1024 - 512)

/-- A file that fills the buffer, then a directory. -/
def fillThenDirectory : List AppendCall :=
  [.file [97] fillingData 0o644 0 0, .directory [100, 47] 0o755 0 0]

/-- Appending the file succeeds. It fits with its header to the byte. -/
theorem appendFile_fillingData :
    ∃ b, (AppendCall.file [97] fillingData 0o644 0 0).applyInPlace UstarBuilder.new =
      (.ok (), b) ∧ b.buf.length = 64 * 1024 * 1024 := by
  have hdata : fillingData.length = 64 * 1024 * 1024 - 512 := length_zeros _
  obtain ⟨out, hheader⟩ := isOk_iff.mp ((appendHeader_isOk_iff UstarBuilder.new.buf [97]
    typeflagRegular fillingData.length 0o644 0 0).mpr
      ⟨by decide, by decide, by rw [hdata]; decide, by decide⟩)
  have hfits : UstarBuilder.new.buf.length + blockSize + fillingData.length +
      (blockSize - fillingData.length % blockSize) % blockSize = 64 * 1024 * 1024 := by
    rw [hdata]
    decide
  have hout := length_appendHeader hheader
  let pad := (blockSize - fillingData.length % blockSize) % blockSize
  refine ⟨{ buf := out ++ fillingData ++ zeros pad }, ?_, ?_⟩
  · rw [AppendCall.applyInPlace, UstarBuilder.appendFileInPlace, if_neg (by decide)]
    simp only [hfits, hheader]
    rw [if_neg (by decide), if_neg (by decide)]
  · rw [List.length_append, List.length_append, length_zeros]
    omega

/-- The directory fails and leaves the buffer one block longer, beyond the limit. -/
theorem ustarBuilder_overrun :
    ¬ StepsMeet BuilderSession.step BuilderSession.new fillThenDirectory BuilderSession.Atomic := by
  intro h
  obtain ⟨b, hplace, hlength⟩ := appendFile_fillingData
  have hatomic := h [.file [97] fillingData 0o644 0 0] (.directory [100, 47] 0o755 0 0) [] _
    rfl rfl
  refine hatomic.not_overruns ⟨by decide, by decide, by decide, by decide, ?_⟩
  have hcall : (BuilderSession.new.call (.file [97] fillingData 0o644 0 0)).builder = b := by
    rw [BuilderSession.call, show BuilderSession.new.builder = UstarBuilder.new from rfl, hplace]
  rw [hcall, hlength]
  decide

end ContainerRs
