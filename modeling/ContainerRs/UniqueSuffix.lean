import ContainerRs.Lib.Runs
import ContainerRs.Lib.Utf8
import ContainerRs.CreateContainer
import ContainerRs.Watchdog
import Mathlib.Data.List.Perm.Basic

/-!
# Names That Are Made up

A container without a name is called after the process, the time and a counter of the process
(`unique_suffix`, core/util.rs). Threads draw from the counter in one step and look at the clock
in another, so that the steps of several threads, and of several processes, may come in any order.
A clock that is set before 1970 counts as zero.

A process is identified with its id. A later process that is given the id of one that has ended
starts with a fresh counter, and its names differ from those of the other one only by what the
clock shows; such processes are left out.

## Main results

* `autoContainerId_valid`: a name that is made up is one that the service accepts.
* `uniqueSuffix_distinct`: no two names are the same, in any order of the steps.
-/

namespace ContainerRs

open Json Runs Utf8

/-! ### The text -/

/-- The time in a name, in nanoseconds. -/
def clockNanos (clock : Option Duration) : ℕ := clock.elim 0 Duration.asNanos

/-- The text that is unique: process, time and count. -/
def uniqueSuffix (pid : UInt32) (clock : Option Duration) (count : UInt64) : Text :=
  naturalText pid.toNat ++ '-' :: (naturalText (clockNanos clock) ++ '-' ::
    naturalText count.toNat)

/-- The name of a container that has none. -/
def autoContainerId (pid : UInt32) (clock : Option Duration) (count : UInt64) : Text :=
  "c-".toList ++ uniqueSuffix pid clock count

/-- A number has no dash, so the dashes of a name tell its three numbers apart. -/
theorem dash_notMem_naturalText (n : ℕ) : '-' ∉ naturalText n := fun h =>
  absurd (isDigit_of_mem_naturalText h) (by decide)

/-- Different numbers are written differently, since each of them reads back. -/
theorem naturalText_injective {m n : ℕ} (h : naturalText m = naturalText n) : m = n := by
  calc m = Nat.ofDigitChars 10 (naturalText m) 0 := Nat.ofDigitChars_ten_toDigits.symm
    _ = Nat.ofDigitChars 10 (naturalText n) 0 := by rw [h]
    _ = n := Nat.ofDigitChars_ten_toDigits

/-- What is in front of the first dash, and what is behind it. By induction on the text in
front; a character that met a dash would be one. -/
theorem split_at_dash {a b rest rest' : Text} (ha : '-' ∉ a) (hb : '-' ∉ b)
    (h : a ++ '-' :: rest = b ++ '-' :: rest') : a = b ∧ rest = rest' := by
  induction a generalizing b with
  | nil =>
      cases b with
      | nil => exact ⟨rfl, (List.cons.inj h).2⟩
      | cons c b => exact absurd ((List.cons.inj h).1 ▸ List.mem_cons_self) hb
  | cons c a ih =>
      rw [List.mem_cons, not_or] at ha
      cases b with
      | nil => exact absurd (List.cons.inj h).1.symm ha.1
      | cons d b =>
          rw [List.mem_cons, not_or] at hb
          obtain ⟨rfl, htail⟩ := List.cons.inj h
          obtain ⟨rfl, hrest⟩ := ih ha.2 hb.2 htail
          exact ⟨rfl, hrest⟩

/-- The process and the count are read back from the text, whatever the time. The three
numerals have no dash, so the suffix is cut at its two dashes in one way. -/
theorem uniqueSuffix_inj {pid pid' : UInt32} {clock clock' : Option Duration}
    {count count' : UInt64} (h : uniqueSuffix pid clock count = uniqueSuffix pid' clock' count') :
    pid = pid' ∧ count = count' := by
  have hdash := dash_notMem_naturalText
  obtain ⟨hpid, hrest⟩ := split_at_dash (hdash _) (hdash _) h
  obtain ⟨-, hcount⟩ := split_at_dash (hdash _) (hdash _) hrest
  exact ⟨UInt32.toNat_inj.mp (naturalText_injective hpid),
    UInt64.toNat_inj.mp (naturalText_injective hcount)⟩

/-- A duration has fewer than 10²⁹ nanoseconds. -/
theorem Duration.asNanos_lt (d : Duration) : d.asNanos < 10 ^ 29 := by
  have hsecs := d.secs.toNat_lt
  have hnanos := d.nanos_lt
  rw [asNanos]
  omega

/-- So has what the clock shows, also when it cannot be read. -/
theorem clockNanos_lt (clock : Option Duration) : clockNanos clock < 10 ^ 29 := by
  cases clock with
  | none => decide
  | some d => exact d.asNanos_lt

/-- **A suffix has at most 61 characters**: 10 for the process, 29 for the clock, 20 for
the count, and two dashes. -/
theorem length_uniqueSuffix_le (pid : UInt32) (clock : Option Duration) (count : UInt64) :
    (uniqueSuffix pid clock count).length ≤ 61 := by
  have hpid : (naturalText pid.toNat).length ≤ 10 :=
    (Nat.length_toDigits_le_iff (by decide) (by decide)).mpr (pid.toNat_lt.trans (by decide))
  have hclock : (naturalText (clockNanos clock)).length ≤ 29 :=
    (Nat.length_toDigits_le_iff (by decide) (by decide)).mpr (clockNanos_lt clock)
  have hcount : (naturalText count.toNat).length ≤ 20 :=
    (Nat.length_toDigits_le_iff (by decide) (by decide)).mpr (count.toNat_lt.trans (by decide))
  simp only [uniqueSuffix, List.length_append, List.length_cons]
  omega

/-- A suffix has digits and dashes only. -/
theorem mem_uniqueSuffix {pid : UInt32} {clock : Option Duration} {count : UInt64} {c : Char}
    (h : c ∈ uniqueSuffix pid clock count) : c.isDigit = true ∨ c = '-' := by
  simp only [uniqueSuffix, List.mem_append, List.mem_cons] at h
  rcases h with h | h | h | h | h
  · exact .inl (isDigit_of_mem_naturalText h)
  · exact .inr h
  · exact .inl (isDigit_of_mem_naturalText h)
  · exact .inr h
  · exact .inl (isDigit_of_mem_naturalText h)

/-- **A name that is made up is valid**, at any time and for any count. The longest one has just
the 63 bytes that are allowed. -/
theorem autoContainerId_valid (pid : UInt32) (clock : Option Duration) (count : UInt64) :
    isValidContainerId (utf8 (autoContainerId pid clock count)) = true := by
  have hascii : ∀ c ∈ uniqueSuffix pid clock count, c.toNat < 128 := by
    intro c hc
    rcases mem_uniqueSuffix hc with hdigit | rfl
    · have hrange : 48 ≤ c.toNat ∧ c.toNat ≤ 57 := Char.isDigit_iff_toNat.mp hdigit
      omega
    · decide
  have hbytes : utf8 (autoContainerId pid clock count) =
      99 :: 45 :: (uniqueSuffix pid clock count).map fun c => UInt8.ofNat c.toNat := by
    rw [autoContainerId, utf8_append, utf8_of_ascii hascii]
    rfl
  have hlen := length_uniqueSuffix_le pid clock count
  rw [hbytes, isValidContainerId, if_neg (by simp; omega),
    Bool.and_eq_true]
  refine ⟨by decide, List.all_eq_true.mpr ?_⟩
  intro b hb
  rcases List.mem_cons.mp hb with rfl | hb
  · decide
  · obtain ⟨c, hc, rfl⟩ := List.mem_map.mp hb
    rcases mem_uniqueSuffix hc with hdigit | rfl
    · have hrange : 48 ≤ c.toNat ∧ c.toNat ≤ 57 := Char.isDigit_iff_toNat.mp hdigit
      have hb : (UInt8.ofNat c.toNat).toNat = c.toNat := by
        rw [UInt8.toNat_ofNat']
        omega
      have hlow : (48 : UInt8) ≤ UInt8.ofNat c.toNat := by
        rw [UInt8.le_iff_toNat_le, hb]
        exact hrange.1
      have hhigh : UInt8.ofNat c.toNat ≤ (57 : UInt8) := by
        rw [UInt8.le_iff_toNat_le, hb]
        exact hrange.2
      simp [isAsciiAlphanumeric, hlow, hhigh]
    · decide

example : (autoContainerId 4294967295 (some ⟨18446744073709551615, 999999999, by decide⟩)
    18446744073709551615).length = 63 := by decide +kernel

/-! ### Threads that make up names -/

/-- Processes whose threads make up names, each under an id of its own that is not used again:
the counter of each process, what threads have drawn from a counter and not yet used, and the
names so far. -/
structure Naming where
  counters : UInt32 → UInt64
  drawn : List (UInt32 × UInt64)
  names : List Text

/-- What a thread of a process does next. -/
inductive NamingStep
  /-- A thread of the process draws from its counter. -/
  | fetchAdd (pid : UInt32)
  /-- The thread that holds this count looks at the clock. -/
  | finish (i : ℕ) (clock : Option Duration)
  deriving DecidableEq

namespace Naming

/-- No thread has begun. -/
def initial : Naming := ⟨fun _ => 0, [], []⟩

/-- One step. -/
def step (s : Naming) : NamingStep → Option Naming
  | .fetchAdd pid => some
      { s with
        counters := Function.update s.counters pid (s.counters pid + 1)
        drawn := s.drawn ++ [(pid, s.counters pid)] }
  | .finish i clock => s.drawn[i]?.map fun ticket =>
      { s with
        drawn := s.drawn.eraseIdx i
        names := s.names ++ [autoContainerId ticket.1 clock ticket.2] }

/-- The tickets that were drawn are all different, and each name is that of a ticket; `issued` is
how many tickets of a process there are. -/
structure Inv (issued : UInt32 → ℕ) (s : Naming) : Prop where
  counters : ∀ pid, s.counters pid = UInt64.ofNat (issued pid)
  tickets : ∃ used : List ((UInt32 × UInt64) × Option Duration),
    s.names = used.map (fun u => autoContainerId u.1.1 u.2 u.1.2) ∧
      (s.drawn ++ used.map Prod.fst).Nodup ∧
      ∀ ticket ∈ s.drawn ++ used.map Prod.fst, ticket.2.toNat < issued ticket.1

/-- In the beginning no process has drawn a name. -/
theorem inv_initial : Inv (fun _ => 0) initial := ⟨fun _ => rfl, [], rfl, .nil, nofun⟩

/-- How many tickets there are behind a step. -/
def issuedAfter (issued : UInt32 → ℕ) : NamingStep → UInt32 → ℕ
  | .fetchAdd pid => Function.update issued pid (issued pid + 1)
  | .finish _ _ => issued

/-- **The step lemma**: a ticket that is drawn is new, as long as its counter has not come
round. A counter that has been asked fewer than `2 ^ 64` times holds the number of tickets
it gave, so the ticket that it gives now is none of those. -/
theorem Inv.step {issued : UInt32 → ℕ} {s s' : Naming} {a : NamingStep} (h : Inv issued s)
    (hstep : s.step a = some s') (hbound : ∀ pid, issuedAfter issued a pid ≤ 2 ^ 64) :
    Inv (issuedAfter issued a) s' := by
  obtain ⟨hcounters, used, hnames, hnodup, hissued⟩ := h
  cases a with
  | fetchAdd pid =>
      obtain rfl := Option.some.inj hstep
      have hpid : issued pid < 2 ^ 64 := by
        have := hbound pid
        rw [issuedAfter, Function.update_self] at this
        omega
      have hvalue : (s.counters pid).toNat = issued pid := by
        rw [hcounters, UInt64.toNat_ofNat', Nat.mod_eq_of_lt hpid]
      refine ⟨?_, used, hnames, ?_, ?_⟩
      · intro other
        by_cases hother : other = pid
        · subst hother
          simp only [issuedAfter, Function.update_self, hcounters, UInt64.ofNat_add]
          rfl
        · simp only [issuedAfter, Function.update_of_ne hother, hcounters]
      · rw [List.append_assoc, List.nodup_append]
        rw [List.nodup_append] at hnodup
        refine ⟨hnodup.1, ?_, ?_⟩
        · rw [List.singleton_append, List.nodup_cons]
          refine ⟨fun hmem => ?_, hnodup.2.1⟩
          have hlt : (s.counters pid).toNat < issued pid :=
            hissued _ (List.mem_append_right _ hmem)
          omega
        · intro ticket hticket other hother heq
          subst heq
          rw [List.singleton_append, List.mem_cons] at hother
          rcases hother with rfl | hmem
          · have hlt : (s.counters pid).toNat < issued pid :=
              hissued _ (List.mem_append_left _ hticket)
            omega
          · exact hnodup.2.2 _ hticket _ hmem rfl
      · intro ticket hticket
        rw [List.append_assoc, List.singleton_append] at hticket
        have hcase : ticket = (pid, s.counters pid) ∨ ticket ∈ s.drawn ++ used.map Prod.fst := by
          simp only [List.mem_append, List.mem_cons] at hticket ⊢
          tauto
        rcases hcase with rfl | hmem
        · simp only [issuedAfter, Function.update_self, hvalue]
          omega
        · have hlt := hissued ticket hmem
          by_cases hother : ticket.1 = pid
          · rw [issuedAfter, hother, Function.update_self]
            rw [hother] at hlt
            omega
          · rwa [issuedAfter, Function.update_of_ne hother]
  | finish i clock =>
      obtain ⟨ticket, hticket, rfl⟩ := Option.map_eq_some_iff.mp hstep
      have hperm : (s.drawn.eraseIdx i ++ (used ++ [(ticket, clock)]).map Prod.fst).Perm
          (s.drawn ++ used.map Prod.fst) := by
        obtain ⟨hi, rfl⟩ := List.getElem?_eq_some_iff.mp hticket
        rw [List.map_append, List.map_singleton, ← List.append_assoc]
        refine (List.perm_append_singleton _ _).trans ?_
        rw [← List.cons_append]
        exact (List.getElem_cons_eraseIdx_perm hi).append_right _
      refine ⟨hcounters, used ++ [(ticket, clock)], ?_, hperm.nodup_iff.mpr hnodup, ?_⟩
      · rw [List.map_append, hnames]
        rfl
      · exact fun other hother => hissued other (hperm.mem_iff.mp hother)

/-- The tickets of a process in a run. -/
def fetches (steps : List NamingStep) (pid : UInt32) : ℕ := steps.count (.fetchAdd pid)

/-- **The run lemma.** By induction on the steps: what a step issues counts towards the
bound of those behind it. -/
theorem Inv.run {issued : UInt32 → ℕ} {s t : Naming} {steps : List NamingStep} (h : Inv issued s)
    (hrun : Runs.run Naming.step s steps = some t)
    (hbound : ∀ pid, issued pid + fetches steps pid ≤ 2 ^ 64) :
    Inv (fun pid => issued pid + fetches steps pid) t := by
  induction steps generalizing issued s with
  | nil =>
      obtain rfl := Option.some.inj hrun
      exact h
  | cons a steps ih =>
      obtain ⟨s', hstep, hrest⟩ := run_cons_eq_some.mp hrun
      have hadd : ∀ pid, issued pid + fetches (a :: steps) pid =
          issuedAfter issued a pid + fetches steps pid := by
        intro pid
        cases a with
        | fetchAdd other =>
            by_cases hother : pid = other
            · subst hother
              simp only [fetches, issuedAfter, List.count_cons_self, Function.update_self]
              omega
            · simp [fetches, issuedAfter, Function.update_of_ne hother, Ne.symm hother]
        | finish i clock => simp [fetches, issuedAfter]
      simp only [hadd] at hbound ⊢
      refine ih (h.step hstep fun pid => ?_) hrest hbound
      have := hbound pid
      omega

end Naming

/-- **Names that are made up are different**, whatever the clocks show and in whatever order the
threads of any processes with ids of their own take their steps, as long as no counter has come
round. -/
theorem uniqueSuffix_distinct (steps : List NamingStep) (s : Naming)
    (hrun : run Naming.step .initial steps = some s)
    (hbound : ∀ pid, Naming.fetches steps pid ≤ 2 ^ 64) : s.names.Nodup := by
  have hinv := Naming.inv_initial.run hrun fun pid => by simpa using hbound pid
  obtain ⟨used, hnames, hnodup, -⟩ := hinv.tickets
  rw [hnames]
  have hused : (used.map Prod.fst).Nodup := (List.nodup_append.mp hnodup).2.1
  refine (List.Nodup.of_map Prod.fst hused).map_on fun u hu v hv huv => ?_
  have hticket := uniqueSuffix_inj (List.append_cancel_left huv)
  exact List.inj_on_of_nodup_map hused hu hv (Prod.ext hticket.1 hticket.2)

/-- Two threads of one process draw before either looks at the clock, which shows the same. -/
theorem uniqueSuffix_distinct_sample :
    (autoContainerId 7 none 1) ≠ (autoContainerId 7 none 0) := by
  have hnodup := uniqueSuffix_distinct
    [.fetchAdd 7, .fetchAdd 7, .finish 1 none, .finish 0 none] _ rfl (fun pid =>
      List.count_le_length.trans (by decide))
  exact (List.nodup_cons.mp hnodup).1 ∘ fun h => h ▸ List.mem_cons_self

end ContainerRs
