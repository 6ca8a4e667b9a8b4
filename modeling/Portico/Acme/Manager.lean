/-
  The certificate on disk: `portico_acme_manager_ensure` and `write_public` of
  src/acme/acme_manager.c.

  Model. The file at `cert_path` is its bytes, or nothing if it is missing. What OpenSSL reads
  from it is a parameter: the leaf certificate, with the days that are left (none if the times
  cannot be compared) and its DNS names. The outcomes of the file operations are data: whether
  `open` succeeds, how many bytes `write` stores and reports (none if it fails), whether `close`
  succeeds. The result of the issuance is the text it returned, used as a C string. The message
  on stderr and the callback `on_renewed` are left out.

  Proved: `ensure_file_iff`. When the call returns 1 the file is the whole new chain. When it
  returns -1 the file is as before, except that the issuance succeeded, the file was opened and
  then the write or the close failed: opening has emptied the file, and what is left is the
  bytes that were stored. So a full disk destroys the certificate in use
  (`failed_write_empties_cert`).
-/
import Portico.Ws.Handshake

namespace Portico.Acme

open Portico.Ws

/-- What is read from the leaf certificate. -/
structure Leaf where
  daysLeft : Option Int
  dnsNames : List Bytes
  deriving DecidableEq, Repr

structure ManagerConfig where
  domains : List Bytes
  renewWithinDays : Int
  deriving DecidableEq, Repr

/-- The outcomes of `open`, `write` and `close`. -/
structure FileOps where
  openOk : Bool
  written : Option Nat
  closeOk : Bool
  deriving DecidableEq, Repr

variable (readLeaf : Bytes → Option Leaf)

def porticoAcmeCertDaysLeft (file : Option Bytes) : Int :=
  match file.bind readLeaf with
  | none => -1
  | some leaf => leaf.daysLeft.getD (-1)

def porticoAcmeCertCovers (file : Option Bytes) (domains : List Bytes) : Bool :=
  if domains = [] then true
  else match file.bind readLeaf with
    | none => false
    | some leaf => domains.all fun want => leaf.dnsNames.any (equalsCi · want)

def porticoAcmeCertNeedsRenewal (file : Option Bytes) (renewWithinDays : Int) : Bool :=
  let d := porticoAcmeCertDaysLeft readLeaf file
  d < 0 || d ≤ renewWithinDays

/-- What the file holds after `write`: opening it has cut it to nothing. -/
def FileOps.stored (ops : FileOps) (data : Bytes) : Bytes := data.take (ops.written.getD 0)

/-- Whether it succeeds, and the file. -/
def writePublic (ops : FileOps) (file : Option Bytes) (data : Bytes) : Bool × Option Bytes :=
  if !ops.openOk then (false, file)
  else
    let ok := ops.written.map (min data.length) = some data.length
    (ok && ops.closeOk, some (ops.stored data))

/-- Whether the certificate has to be issued. -/
def renewalDue (cfg : ManagerConfig) (file : Option Bytes) : Bool :=
  porticoAcmeCertNeedsRenewal readLeaf file cfg.renewWithinDays ||
    !porticoAcmeCertCovers readLeaf file cfg.domains

/-- What the call returns, and the file. -/
def porticoAcmeManagerEnsure (cfg : ManagerConfig) (obtained : Option Bytes) (ops : FileOps)
    (file : Option Bytes) : Int × Option Bytes :=
  if !renewalDue readLeaf cfg file then (0, file)
  else match obtained with
    | none => (-1, file)
    | some pem =>
      match writePublic ops file (cString pem) with
      | (true, file) => (1, file)
      | (false, file) => (-1, file)

/-- The file was opened, and then the write was short or failed, or the close failed. -/
def FileOps.FailsOpened (ops : FileOps) (data : Bytes) : Prop :=
  ops.openOk = true ∧ (ops.written.map (min data.length) ≠ some data.length ∨ ops.closeOk = false)

theorem writePublic_ok {ops : FileOps} {file : Option Bytes} {data : Bytes}
    (h : (writePublic ops file data).1 = true) : (writePublic ops file data).2 = some data := by
  rw [writePublic] at h ⊢
  split at h
  · cases h
  · next hopen =>
    rw [Bool.and_eq_true, decide_eq_true_eq] at h
    obtain ⟨n, hn, hmin⟩ := Option.map_eq_some_iff.mp h.1
    rw [if_neg hopen, FileOps.stored, hn, Option.getD_some, List.take_of_length_le (by omega)]

theorem writePublic_keeps_iff (ops : FileOps) (file : Option Bytes) (data : Bytes) :
    ((writePublic ops file data).1 = false → (writePublic ops file data).2 = file) ↔
      (ops.FailsOpened data → file = some (ops.stored data)) := by
  rw [writePublic, FileOps.FailsOpened]
  cases ops.openOk with
  | false => simp
  | true =>
    rw [Bool.not_true, if_neg Bool.false_ne_true]
    dsimp only
    rw [Bool.and_eq_false_iff, decide_eq_false_iff_not]
    exact ⟨fun h hf => (h hf.2).symm, fun h hf => (h ⟨rfl, hf⟩).symm⟩

/-- For every certificate on disk and every outcome of the issuance and of the file operations:
    a call that returns -1 leaves the file as it was, exactly if it is not one that has issued a
    certificate, opened the file and failed behind that with other bytes in it; a call that
    returns 1 leaves the whole new chain. -/
theorem ensure_file_iff (cfg : ManagerConfig) (obtained : Option Bytes) (ops : FileOps)
    (file : Option Bytes) :
    let after := porticoAcmeManagerEnsure readLeaf cfg obtained ops file
    ((after.1 = -1 → after.2 = file) ↔
      ∀ pem, renewalDue readLeaf cfg file = true → obtained = some pem →
        ops.FailsOpened (cString pem) → file = some (ops.stored (cString pem))) ∧
    (after.1 = 1 → ∃ pem, obtained = some pem ∧ after.2 = some (cString pem)) := by
  intro after
  have hafter : after = porticoAcmeManagerEnsure readLeaf cfg obtained ops file := rfl
  unfold porticoAcmeManagerEnsure at hafter
  cases hdue : renewalDue readLeaf cfg file with
  | false =>
    rw [hdue, Bool.not_false, if_pos rfl] at hafter
    simp [hafter]
  | true =>
    rw [hdue, Bool.not_true, if_neg Bool.false_ne_true] at hafter
    cases obtained with
    | none => simp [hafter]
    | some pem =>
      have hkeeps := writePublic_keeps_iff ops file (cString pem)
      have hok := @writePublic_ok ops file (cString pem)
      rcases hwrite : writePublic ops file (cString pem) with ⟨ok, file'⟩
      rw [hwrite] at hkeeps hok
      simp only [hwrite] at hafter
      cases ok with
      | false =>
        rw [hafter]
        refine ⟨⟨fun h p _ hp => ?_, fun h _ => ?_⟩, by simp⟩
        · rw [← Option.some.inj hp]
          exact hkeeps.mp fun _ => h rfl
        · exact hkeeps.mpr (h pem rfl rfl) rfl
      | true =>
        rw [hafter]
        refine ⟨⟨fun _ p _ hp => ?_, by simp⟩, fun _ => ⟨pem, rfl, hok rfl⟩⟩
        rw [← Option.some.inj hp]
        exact hkeeps.mp (by simp)

/-- A certificate for one domain with three days left, renewed on a disk that is full. -/
theorem failed_write_empties_cert :
    porticoAcmeManagerEnsure (fun _ => some ⟨some 3, [ascii "a.test"]⟩) ⟨[ascii "a.test"], 30⟩
      (some (ascii "new chain")) ⟨true, none, true⟩ (some (ascii "old chain")) =
      (-1, some []) := by
  decide +kernel

end Portico.Acme
