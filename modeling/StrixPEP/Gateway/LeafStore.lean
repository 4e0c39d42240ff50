import StrixPEP.Pdp.Canonical

/-!
# The store of leaf certificates (`pep/ca.py`)

`leaf_for` mints a certificate for a host on first use and serves it from then on: from a cache that
is keyed by the host, and from a directory whose file names are the host with `:` and `/` replaced by
`_`.  The cache goes with the process, the directory stays.

* `leafFor` — `InterceptionCA.leaf_for`.  `Minting` is what the tools do in one call: `openssl`
  succeeds with the requested extension, or fails and leaves anything in the files it was to write.
* `calls` — every call of a run of calls and restarts, with what it returned.
* `Inv` — a certificate file holds what the one signing under its name left there.
* `leaf_store_iff` — every certificate that is returned was minted for its host exactly where no
  signing under the host's file name has left anything else.

File names are relative to the leaf directory.
-/

namespace StrixPEP

namespace LeafStore

open IpAddress (Text)

/-! ## The directory -/

/-- The content of a file of the leaf directory. -/
inductive File where
  | key (id : Nat)
  | request (subject : Text) (key : Nat)
  | extensions (text : Text)
  /-- A certificate: the extensions it was signed with, and its key. -/
  | certificate (extensions : Text) (key : Nat)
  | other (content : Bytes)
  deriving DecidableEq

/-- The leaf directory: file names and contents. -/
abbrev Dir := Text → Option File

/-- `_san_for`. -/
def sanFor (host : Text) : Text :=
  if isIpLiteral host then "IP:".toList ++ host else "DNS:".toList ++ host

/-- What is written to the extension file. -/
def extensionText (host : Text) : Text :=
  "subjectAltName=".toList ++ sanFor host ++
    "\nextendedKeyUsage=serverAuth\nbasicConstraints=critical,CA:FALSE\n".toList

/-- `safe`. -/
def safeName (host : Text) : Text := host.map fun c => if c = ':' ∨ c = '/' then '_' else c

def keyFile (safe : Text) : Text := safe ++ ".key".toList
def crtFile (safe : Text) : Text := safe ++ ".crt".toList
def csrFile (safe : Text) : Text := safe ++ ".csr".toList
def extFile (safe : Text) : Text := safe ++ ".ext".toList

/-! ## `leaf_for` -/

/-- What is raised: `CAError`, or an exception of the file system. -/
inductive Failure where
  | ca
  | os
  deriving DecidableEq

/-- What the tools do in one call of `leaf_for`, as far as it comes to them.  Where one fails, the
files that it was to write are as it left them. -/
structure Minting where
  /-- `openssl req`: the new key; or the key file and the request file. -/
  request : Except (Failure × Option File × Option File) Nat
  /-- `open(ext, "w")`, `write`. -/
  extension : Except (Failure × Option File) Unit
  /-- `openssl x509`: the certificate file. -/
  signing : Except (Failure × Option File) Unit
  /-- `os.unlink` of the request file and of the extension file. -/
  unlinked : Bool × Bool
  /-- `os.chmod` of the key and the certificate. -/
  modes : Except Failure Unit

/-- The file that one run of `openssl x509` left. -/
structure Signing where
  safe : Text
  left : Option File

/-- `InterceptionCA`, less the CA itself, and its leaf directory; `signings` is kept for the
properties. -/
structure Store where
  dir : Dir
  cache : List (Text × Text × Text)
  signings : List Signing

namespace Store

def fresh : Store := ⟨fun _ => none, [], []⟩

/-- A file is written, or as it was left. -/
def put (s : Store) (name : Text) (file : Option File) : Store :=
  { s with dir := Function.update s.dir name file }

/-- `os.unlink`. -/
def unlink (s : Store) (name : Text) (done : Bool) : Store := if done then s.put name none else s

end Store

/-- `leaf_for` where the key or the certificate is missing. -/
def mint (s : Store) (host : Text) (m : Minting) : Except Failure Unit × Store :=
  let safe := safeName host
  match m.request with
  | .error (e, key, csr) => (.error e, (s.put (keyFile safe) key).put (csrFile safe) csr)
  | .ok k =>
    let s := (s.put (keyFile safe) (some (.key k))).put (csrFile safe) (some (.request host k))
    match m.extension with
    | .error (e, ext) => (.error e, s.put (extFile safe) ext)
    | .ok _ =>
      let s := s.put (extFile safe) (some (.extensions (extensionText host)))
      let left : Option File :=
        match m.signing with
        | .ok _ => some (.certificate (extensionText host) k)
        | .error (_, left) => left
      let s := { s.put (crtFile safe) left with signings := s.signings ++ [Signing.mk safe left] }
      let s := (s.unlink (csrFile safe) m.unlinked.1).unlink (extFile safe) m.unlinked.2
      match m.signing with
      | .error (e, _) => (.error e, s)
      | .ok _ => (m.modes, s)

/-- `leaf_for`. -/
def leafFor (s : Store) (host : Text) (m : Minting) : Except Failure (Text × Text) × Store :=
  match s.cache.lookup host with
  | some hit => (.ok hit, s)
  | none =>
    let crt := crtFile (safeName host)
    let key := keyFile (safeName host)
    let remember (s : Store) : Store := { s with cache := (host, crt, key) :: s.cache }
    if (s.dir key).isSome ∧ (s.dir crt).isSome then (.ok (crt, key), remember s)
    else
      match mint s host m with
      | (.error e, s) => (.error e, s)
      | (.ok _, s) => (.ok (crt, key), remember s)

/-! ## Runs -/

inductive Op where
  | leafFor (host : Text) (m : Minting)
  /-- A new process over the same directory. -/
  | restart

/-- A call of `leaf_for` in a run: the signings before it, what it returned, and the directory then. -/
structure Call where
  host : Text
  earlier : List Signing
  outcome : Except Failure (Text × Text)
  dir : Dir

/-- The calls of a run. -/
def calls (s : Store) : List Op → List Call
  | [] => []
  | .restart :: ops => calls { s with cache := [] } ops
  | .leafFor host m :: ops =>
    let r := leafFor s host m
    ⟨host, s.signings, r.1, r.2.dir⟩ :: calls r.2 ops

/-- The file is a certificate that was minted for the host. -/
def MintedFor (host : Text) : Option File → Prop
  | some (.certificate ext _) => ext = extensionText host
  | _ => False

instance (host : Text) (f : Option File) : Decidable (MintedFor host f) :=
  match f with
  | some (.certificate ext _) => inferInstanceAs (Decidable (ext = extensionText host))
  | none | some (.key _) | some (.request _ _) | some (.extensions _) | some (.other _) => isFalse id

/-- What the call returned is a certificate for its host. -/
def Call.Correct (c : Call) : Prop :=
  match c.outcome with
  | .ok (crt, _) => MintedFor c.host (c.dir crt)
  | .error _ => True

instance (c : Call) : Decidable c.Correct :=
  match c with
  | ⟨host, _, .ok (crt, _), dir⟩ => inferInstanceAs (Decidable (MintedFor host (dir crt)))
  | ⟨_, _, .error _, _⟩ => isTrue trivial

/-- No earlier signing under the file name of the host has left anything but a certificate for this
host. -/
def Call.Unspoilt (c : Call) : Prop :=
  ∀ g ∈ c.earlier, g.safe = safeName c.host → g.left = none ∨ MintedFor c.host g.left

/-! ## File names -/

section Names

variable {safe safe' : Text}

/-- Names with different endings of one length differ. -/
theorem ending_ne {e e' : Text} (hlen : e.length = e'.length) (hne : e ≠ e') : safe ++ e ≠ safe' ++ e' :=
  fun h => hne (List.append_inj' h hlen).2

theorem crtFile_inj : crtFile safe = crtFile safe' ↔ safe = safe' := List.append_left_inj _

theorem keyFile_inj : keyFile safe = keyFile safe' ↔ safe = safe' := List.append_left_inj _

theorem crtFile_ne_keyFile : crtFile safe ≠ keyFile safe' := ending_ne (by simp) (by simp)

theorem crtFile_ne_csrFile : crtFile safe ≠ csrFile safe' := ending_ne (by simp) (by simp)

theorem crtFile_ne_extFile : crtFile safe ≠ extFile safe' := ending_ne (by simp) (by simp)

theorem keyFile_ne_csrFile : keyFile safe ≠ csrFile safe' := ending_ne (by simp) (by simp)

theorem keyFile_ne_extFile : keyFile safe ≠ extFile safe' := ending_ne (by simp) (by simp)

end Names

/-- A certificate was minted for one host. -/
theorem MintedFor.unique {host host' : Text} {f : Option File} (h : MintedFor host f)
    (h' : MintedFor host' f) : host = host' := by
  unfold MintedFor at h h'
  split at h
  · have htext : extensionText host = extensionText host' := h.symm.trans h'
    have hsan : sanFor host = sanFor host' :=
      List.append_cancel_left (List.append_cancel_right htext)
    unfold sanFor at hsan
    split at hsan <;> split at hsan
    · exact List.append_cancel_left hsan
    · cases hsan
    · cases hsan
    · exact List.append_cancel_left hsan
  · cases h

/-! ## What one call does -/

section Mint

variable {s : Store} {host : Text} {m : Minting}

@[simp] theorem Store.put_dir (s : Store) (name : Text) (file : Option File) (n : Text) :
    (s.put name file).dir n = if n = name then file else s.dir n := by
  simp [Store.put, Function.update_apply]

@[simp] theorem Store.put_cache (s : Store) (name : Text) (file : Option File) :
    (s.put name file).cache = s.cache := rfl

@[simp] theorem Store.put_signings (s : Store) (name : Text) (file : Option File) :
    (s.put name file).signings = s.signings := rfl

theorem Store.unlink_dir (s : Store) {name n : Text} (done : Bool) (h : n ≠ name) :
    (s.unlink name done).dir n = s.dir n := by
  unfold Store.unlink
  split
  · simp [h]
  · rfl

@[simp] theorem Store.unlink_cache (s : Store) (name : Text) (done : Bool) :
    (s.unlink name done).cache = s.cache := by
  unfold Store.unlink
  split <;> rfl

@[simp] theorem Store.unlink_signings (s : Store) (name : Text) (done : Bool) :
    (s.unlink name done).signings = s.signings := by
  unfold Store.unlink
  split <;> rfl

/-- What minting does to the files that matter: it fails before anything is signed, or it signs. -/
structure Minted (s : Store) (host : Text) (r : Except Failure Unit) (s' : Store) : Prop where
  cache : s'.cache = s.cache
  crt : ∀ safe, safe ≠ safeName host → s'.dir (crtFile safe) = s.dir (crtFile safe)
  key : ∀ safe, safe ≠ safeName host → s'.dir (keyFile safe) = s.dir (keyFile safe)
  signed : (s'.signings = s.signings ∧ s'.dir (crtFile (safeName host)) = s.dir (crtFile (safeName host)) ∧
      ∃ e, r = .error e) ∨
    ∃ left, s'.signings = s.signings ++ [⟨safeName host, left⟩] ∧
      s'.dir (crtFile (safeName host)) = left ∧ (s'.dir (keyFile (safeName host))).isSome ∧
      (r = .ok () → MintedFor host left)

theorem mint_minted : Minted s host (mint s host m).1 (mint s host m).2 := by
  have hcrt : ∀ {safe : Text}, safe ≠ safeName host → crtFile safe ≠ crtFile (safeName host) :=
    fun h he => h (crtFile_inj.1 he)
  have hkey : ∀ {safe : Text}, safe ≠ safeName host → keyFile safe ≠ keyFile (safeName host) :=
    fun h he => h (keyFile_inj.1 he)
  have hkc : ∀ safe safe' : Text, keyFile safe ≠ crtFile safe' := fun _ _ => crtFile_ne_keyFile.symm
  unfold mint
  dsimp only
  cases m.request with
  | error failure =>
    refine ⟨rfl, fun safe h => ?_, fun safe h => ?_, .inl ⟨rfl, ?_, _, rfl⟩⟩
    · simp [crtFile_ne_csrFile, crtFile_ne_keyFile]
    · simp [keyFile_ne_csrFile, hkey h]
    · simp [crtFile_ne_csrFile, crtFile_ne_keyFile]
  | ok k =>
  dsimp only
  split
  · refine ⟨rfl, fun safe h => ?_, fun safe h => ?_, .inl ⟨rfl, ?_, _, rfl⟩⟩
    · simp [crtFile_ne_csrFile, crtFile_ne_keyFile, crtFile_ne_extFile]
    · simp [keyFile_ne_csrFile, hkey h, keyFile_ne_extFile]
    · simp [crtFile_ne_csrFile, crtFile_ne_keyFile, crtFile_ne_extFile]
  cases m.signing with
  | error failure =>
    refine ⟨by simp, fun safe h => ?_, fun safe h => ?_, .inr ⟨failure.2, by simp, ?_, ?_, nofun⟩⟩
    · simp [Store.unlink_dir, crtFile_ne_csrFile, crtFile_ne_keyFile, crtFile_ne_extFile, hcrt h]
    · simp [Store.unlink_dir, keyFile_ne_csrFile, keyFile_ne_extFile, hkc, hkey h]
    · simp [Store.unlink_dir, crtFile_ne_csrFile, crtFile_ne_extFile]
    · simp [Store.unlink_dir, keyFile_ne_csrFile, keyFile_ne_extFile, hkc]
  | ok u =>
    refine ⟨by simp, fun safe h => ?_, fun safe h => ?_, .inr
      ⟨some (.certificate (extensionText host) k), by simp, ?_, ?_, fun _ => rfl⟩⟩
    · simp [Store.unlink_dir, crtFile_ne_csrFile, crtFile_ne_keyFile, crtFile_ne_extFile, hcrt h]
    · simp [Store.unlink_dir, keyFile_ne_csrFile, keyFile_ne_extFile, hkc, hkey h]
    · simp [Store.unlink_dir, crtFile_ne_csrFile, crtFile_ne_extFile]
    · simp [Store.unlink_dir, keyFile_ne_csrFile, keyFile_ne_extFile, hkc]

end Mint

/-! ## The invariant -/

/-- What is true of the store between two calls. -/
structure Inv (s : Store) : Prop where
  /-- What a signing left under a name is still there, with its key. -/
  kept : ∀ g ∈ s.signings, ∀ f, g.left = some f →
    s.dir (crtFile g.safe) = some f ∧ (s.dir (keyFile g.safe)).isSome
  /-- A certificate file was left there by a signing. -/
  signed : ∀ safe f, s.dir (crtFile safe) = some f → ∃ g ∈ s.signings, g.safe = safe ∧ g.left = some f
  cached : ∀ host hit, s.cache.lookup host = some hit →
    hit = (crtFile (safeName host), keyFile (safeName host)) ∧ (s.dir (crtFile (safeName host))).isSome

theorem inv_fresh : Inv Store.fresh := ⟨nofun, nofun, nofun⟩

section Step

variable {s : Store} {host : Text} {m : Minting}

/-- The cache remembers a host whose files are there. -/
theorem Inv.remember (h : Inv s) (hcrt : (s.dir (crtFile (safeName host))).isSome) :
    Inv { s with cache := (host, crtFile (safeName host), keyFile (safeName host)) :: s.cache } := by
  refine ⟨h.kept, h.signed, fun host' hit hlookup => ?_⟩
  rw [List.lookup_cons] at hlookup
  split at hlookup
  · rename_i heq
    rw [eq_of_beq heq]
    exact ⟨(Option.some.inj hlookup).symm, hcrt⟩
  · exact h.cached host' hit hlookup

/-- Minting keeps the invariant: it signs only where the files are not both there, so under a name that
no signing has left anything under. -/
theorem Inv.minted (h : Inv s)
    (hmissing : ¬ ((s.dir (keyFile (safeName host))).isSome ∧ (s.dir (crtFile (safeName host))).isSome))
    {r : Except Failure Unit} {s' : Store} (hm : Minted s host r s') : Inv s' := by
  have hfree : ∀ g ∈ s.signings, ∀ f, g.left = some f → g.safe ≠ safeName host := by
    intro g hg f hf hsafe
    obtain ⟨hcrt, hkey⟩ := h.kept g hg f hf
    rw [hsafe] at hcrt hkey
    exact hmissing ⟨hkey, by rw [hcrt]; rfl⟩
  have hcached : ∀ (host' : Text) hit, s.cache.lookup host' = some hit →
      hit = (crtFile (safeName host'), keyFile (safeName host')) ∧ safeName host' ≠ safeName host ∧
        (s.dir (crtFile (safeName host'))).isSome := by
    intro host' hit hlookup
    obtain ⟨hhit, hcrt⟩ := h.cached host' hit hlookup
    obtain ⟨f, hf⟩ := Option.isSome_iff_exists.1 hcrt
    obtain ⟨g, hg, hsafe, hleft⟩ := h.signed _ f hf
    exact ⟨hhit, hsafe ▸ hfree g hg f hleft, hcrt⟩
  have hkept : ∀ g ∈ s.signings, ∀ f, g.left = some f →
      s'.dir (crtFile g.safe) = some f ∧ (s'.dir (keyFile g.safe)).isSome := by
    intro g hg f hf
    rw [hm.crt _ (hfree g hg f hf), hm.key _ (hfree g hg f hf)]
    exact h.kept g hg f hf
  have hcached' : ∀ (host' : Text) hit, s'.cache.lookup host' = some hit →
      hit = (crtFile (safeName host'), keyFile (safeName host')) ∧
        (s'.dir (crtFile (safeName host'))).isSome := by
    intro host' hit hlookup
    rw [hm.cache] at hlookup
    obtain ⟨hhit, hne, hcrt⟩ := hcached host' hit hlookup
    rw [hm.crt _ hne]
    exact ⟨hhit, hcrt⟩
  rcases hm.signed with ⟨hsig, hcrt, -⟩ | ⟨left, hsig, hcrt, hkey, -⟩
  · refine ⟨hsig ▸ hkept, fun safe f hf => ?_, hcached'⟩
    rw [hsig]
    by_cases hsafe : safe = safeName host
    · subst hsafe
      exact h.signed _ f (hcrt ▸ hf)
    · exact h.signed safe f (hm.crt safe hsafe ▸ hf)
  · refine ⟨fun g hg f hf => ?_, fun safe f hf => ?_, hcached'⟩
    · rw [hsig] at hg
      rcases List.mem_append.1 hg with hg | hg
      · exact hkept g hg f hf
      · cases List.mem_singleton.1 hg
        exact ⟨hcrt.trans hf, hkey⟩
    · rw [hsig]
      by_cases hsafe : safe = safeName host
      · exact ⟨⟨safeName host, left⟩, by simp, hsafe.symm, hcrt.symm.trans (hsafe ▸ hf)⟩
      · obtain ⟨g, hg, hg'⟩ := h.signed safe f (hm.crt safe hsafe ▸ hf)
        exact ⟨g, List.mem_append_left _ hg, hg'⟩

/-- The ways through `leaf_for`: what is there is served, or a certificate is minted. -/
theorem leafFor_cases (h : Inv s) :
    ((leafFor s host m).1 = .ok (crtFile (safeName host), keyFile (safeName host)) ∧
      (leafFor s host m).2.dir = s.dir ∧ (s.dir (crtFile (safeName host))).isSome ∧
      Inv (leafFor s host m).2) ∨
    (¬ ((s.dir (keyFile (safeName host))).isSome ∧ (s.dir (crtFile (safeName host))).isSome) ∧
      Inv (leafFor s host m).2 ∧
      Call.Correct ⟨host, s.signings, (leafFor s host m).1, (leafFor s host m).2.dir⟩) := by
  unfold leafFor
  split
  · rename_i hit hlookup
    obtain ⟨rfl, hcrt⟩ := h.cached host hit hlookup
    exact .inl ⟨rfl, rfl, hcrt, h⟩
  · dsimp only
    split
    · rename_i hthere
      exact .inl ⟨rfl, rfl, hthere.2, h.remember hthere.2⟩
    · rename_i hmissing
      have hm : Minted s host (mint s host m).1 (mint s host m).2 := mint_minted
      have hinv := h.minted hmissing hm
      refine .inr ⟨hmissing, ?_⟩
      split
      · rename_i e s' hmint
        rw [hmint] at hinv
        exact ⟨hinv, trivial⟩
      · rename_i u s' hmint
        rw [hmint] at hinv hm
        rcases hm.signed with ⟨-, -, e, he⟩ | ⟨left, -, hcrt, -, hleft⟩
        · cases he
        have hfor := hleft rfl
        rw [← hcrt] at hfor
        refine ⟨hinv.remember ?_, hfor⟩
        cases hf : s'.dir (crtFile (safeName host)) with
        | none =>
          rw [hf] at hfor
          exact hfor.elim
        | some f => rfl

/-- **One call** returns a certificate for its host exactly where no signing under the file name has left
anything else. -/
theorem leafFor_correct (h : Inv s) :
    Call.Correct ⟨host, s.signings, (leafFor s host m).1, (leafFor s host m).2.dir⟩ ↔
      Call.Unspoilt ⟨host, s.signings, (leafFor s host m).1, (leafFor s host m).2.dir⟩ := by
  rcases @leafFor_cases s host m h with ⟨hout, hdir, hcrt, -⟩ | ⟨hmissing, -, hminted⟩
  · obtain ⟨f, hf⟩ := Option.isSome_iff_exists.1 hcrt
    have hserved : Call.Correct ⟨host, s.signings, (leafFor s host m).1, (leafFor s host m).2.dir⟩ ↔
        MintedFor host (some f) := by
      unfold Call.Correct
      rw [hout, hdir]
      dsimp only
      rw [hf]
    rw [hserved]
    constructor
    · intro hfor g hg hsafe
      cases hleft : g.left with
      | none => exact .inl rfl
      | some f' =>
        have hthere := (h.kept g hg f' hleft).1
        rw [hsafe, hf] at hthere
        exact .inr (hthere ▸ hfor)
    · intro hun
      obtain ⟨g, hg, hsafe, hleft⟩ := h.signed _ f hf
      rcases hun g hg hsafe with hnone | hfor
      · rw [hleft] at hnone
        cases hnone
      · exact hleft ▸ hfor
  · refine ⟨fun _ g hg hsafe => ?_, fun _ => hminted⟩
    cases hleft : g.left with
    | none => exact .inl rfl
    | some f =>
      obtain ⟨hcrt, hkey⟩ := h.kept g hg f hleft
      rw [hsafe] at hcrt hkey
      exact absurd ⟨hkey, by rw [hcrt]; rfl⟩ hmissing

end Step

/-! ## Whole runs -/

/-- A new process keeps the invariant. -/
theorem Inv.restart {s : Store} (h : Inv s) : Inv { s with cache := [] } := ⟨h.kept, h.signed, nofun⟩

theorem calls_iff {s : Store} (h : Inv s) (ops : List Op) :
    (∀ c ∈ calls s ops, c.Correct) ↔ ∀ c ∈ calls s ops, c.Unspoilt := by
  induction ops generalizing s with
  | nil => simp [calls]
  | cons op ops ih =>
    cases op with
    | restart => exact ih h.restart
    | leafFor host m =>
      have hinv : Inv (leafFor s host m).2 := by
        rcases @leafFor_cases s host m h with ⟨-, -, -, hinv⟩ | ⟨-, hinv, -⟩
        · exact hinv
        · exact hinv
      unfold calls
      dsimp only
      rw [List.forall_mem_cons, List.forall_mem_cons, leafFor_correct h, ih hinv]

/-- **The leaf certificate store.** In every run of calls, failures and restarts over a directory that
was empty, every certificate that `leaf_for` returns was minted for its host, exactly if at every call no
earlier `openssl x509` under the host's file name has left anything but a certificate for this host. -/
theorem leaf_store_iff (ops : List Op) :
    (∀ c ∈ calls Store.fresh ops, c.Correct) ↔ ∀ c ∈ calls Store.fresh ops, c.Unspoilt :=
  calls_iff inv_fresh ops

/-- `openssl` succeeds throughout. -/
def smooth (key : Nat) : Minting := ⟨.ok key, .ok (), .ok (), (true, true), .ok ()⟩

/-- `2001_db8__1` gets the certificate of `2001:db8::1`; both are texts that `canonical_host` returns. -/
theorem underscores_collide :
    canonicalHost asciiTables asciiIdna "[2001:DB8::1]".toList = some "2001:db8::1".toList ∧
    canonicalHost asciiTables asciiIdna "2001_db8__1".toList = some "2001_db8__1".toList ∧
    ¬ ∀ c ∈ calls Store.fresh
        [.leafFor "2001:db8::1".toList (smooth 1), .restart, .leafFor "2001_db8__1".toList (smooth 2)],
      c.Correct := by
  refine ⟨?_, ?_, ?_⟩ <;> decide +kernel

end LeafStore

end StrixPEP
