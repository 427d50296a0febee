import MeridianMcp.Effects.Prog
import MeridianMcp.Effects.FsOps

namespace Effects

structure Call (S N : Type) where
  site : S
  op : FsOp N

abbrev Answer {S N : Type} [DecidableEq N] (c : Call S N) : Type := Except IoError c.op.Res

structure Env (S : Type) where
  fault : S → Bool
  entropy : S → Bytes

def Env.sound {S : Type} : Env S := ⟨fun _ => false, fun _ => []⟩

abbrev FsProg (S N ε : Type) [DecidableEq N] : Type → Type := Fallible (Call S N) Answer ε

namespace Env

variable {S N α : Type} [DecidableEq N]

-- An operation at a faulty site fails without effect; every other one does what the tree says.
def serve (env : Env S) (c : Call S N) (fs : FileSystem N) : Answer c × FileSystem N :=
  if env.fault c.site then (.error .other, fs)
  else match fs.exec (env.entropy c.site) c.op with
    | .ok (r, t) => (.ok r, t)
    | .error e => (.error e, fs)

def observe (env : Env S) (site : S) (r : Except IoError α) : Except IoError α :=
  if env.fault site then .error .other else r

def change (env : Env S) (site : S) (fs : FileSystem N) (r : Except IoError (FileSystem N)) :
    Except IoError Unit × FileSystem N :=
  if env.fault site then (.error .other, fs)
  else match r with
    | .ok t => (.ok (), t)
    | .error e => (.error e, fs)

section change

variable {env : Env S} {site : S} {fs t : FileSystem N} {r : Except IoError (FileSystem N)}

theorem change_fault (h : env.fault site = true) : env.change site fs r = (.error .other, fs) := by
  simp [change, h]

theorem change_ok (h : env.fault site = false) (hr : r = .ok t) :
    env.change site fs r = (.ok (), t) := by
  simp [change, h, hr]

theorem change_error {e : IoError} (h : env.fault site = false) (hr : r = .error e) :
    env.change site fs r = (.error e, fs) := by
  simp [change, h, hr]

end change

def Torn (c : Call S N) (fs t : FileSystem N) : Prop :=
  match c.op with
  | .append p bytes => ∃ n, fs.append p (bytes.take n) = .ok t
  | .createDirAll p => ∃ q, q <+: p ∧ fs.createDirAll q = .ok t
  | _ => False

end Env

namespace FsProg

variable {S N ε ε' α : Type} [DecidableEq N]

-- Any operation may fail without effect; one that does not acts as the tree says.
def Serves (c : Call S N) (fs : FileSystem N) (r : Answer c) (t : FileSystem N) : Prop :=
  (∃ e, r = .error e ∧ t = fs) ∨ ∃ entropy v, fs.exec entropy c.op = .ok (v, t) ∧ r = .ok v

theorem serves_serve (env : Env S) (c : Call S N) (fs : FileSystem N) :
    Serves c fs (env.serve c fs).1 (env.serve c fs).2 := by
  unfold Env.serve
  split
  · exact .inl ⟨_, rfl, rfl⟩
  · cases h : fs.exec (env.entropy c.site) c.op with
    | error e => exact .inl ⟨e, rfl, rfl⟩
    | ok v => exact .inr ⟨_, v.1, h, rfl⟩

def act (c : Call S N) : FsProg S N IoError c.op.Res := do
  match ← Fallible.ask c with
  | .ok r => pure r
  | .error e => throw e

theorem run_act (c : Call S N) : (act c).run = .call c fun r => .ret r := by
  change Prog.call c _ = _
  congr 1
  funext r
  cases r <;> rfl

theorem exec_act (env : Env S) (c : Call S N) (fs : FileSystem N) :
    Fallible.exec env.serve (act c) fs = env.serve c fs := by
  rw [act, Fallible.exec_bind, Fallible.exec_ask]
  rcases env.serve c fs with ⟨r, t⟩
  cases r <;> rfl

variable (site : S)

def lstat (p : Path N) : FsProg S N IoError Metadata := act ⟨site, .lstat p⟩

def stat (p : Path N) : FsProg S N IoError FileKind := act ⟨site, .stat p⟩

def measure (p : Path N) : FsProg S N IoError Nat := act ⟨site, .measure p⟩

def canonicalize (p : Path N) : FsProg S N IoError (Option (Path N)) := act ⟨site, .canonicalize p⟩

def readTree (p : Path N) : FsProg S N IoError (FinMap (Path N) FileKind) := act ⟨site, .readTree p⟩

def createDirAll (p : Path N) : FsProg S N IoError Unit := act ⟨site, .createDirAll p⟩

def createNew (p : Path N) : FsProg S N IoError Unit := act ⟨site, .createNew p⟩

def openFile (p : Path N) : FsProg S N IoError Unit := act ⟨site, .openFile p⟩

def append (p : Path N) (bytes : Bytes) : FsProg S N IoError Unit := act ⟨site, .append p bytes⟩

def sync (p : Path N) : FsProg S N IoError Unit := act ⟨site, .sync p⟩

def lock (p : Path N) : FsProg S N IoError Unit := act ⟨site, .lock p⟩

def read (p : Path N) : FsProg S N IoError Bytes := act ⟨site, .read p⟩

def rename (p q : Path N) : FsProg S N IoError Unit := act ⟨site, .rename p q⟩

def remove (p : Path N) : FsProg S N IoError Unit := act ⟨site, .remove p⟩

def random : FsProg S N IoError Bytes := act ⟨site, .random⟩

def pathExists (p : Path N) : FsProg S N ε Bool := do
  let found ← Fallible.attempt (stat site p)
  pure found.isOk

section exec

variable (env : Env S) (fs : FileSystem N) (p q : Path N)

theorem serve_observe {o : FsOp N} {r : Except IoError o.Res}
    (h : fs.exec (env.entropy site) o = r.map (·, fs)) :
    env.serve ⟨site, o⟩ fs = (env.observe site r, fs) := by
  cases hf : env.fault site <;> cases r <;> simp_all [Env.serve, Env.observe, Except.map]

theorem serve_change {o : FsOp N} (ho : o.Res = Unit) {r : Except IoError (FileSystem N)}
    (h : fs.exec (env.entropy site) o = r.map (cast ho.symm (), ·)) :
    env.serve ⟨site, o⟩ fs =
      ((env.change site fs r).1.map (cast ho.symm), (env.change site fs r).2) := by
  cases hf : env.fault site <;> cases r <;> simp_all [Env.serve, Env.change, Except.map]

@[simp] theorem exec_lstat :
    Fallible.exec env.serve (lstat site p) fs = (env.observe site (fs.lstat p), fs) :=
  (exec_act env _ fs).trans (serve_observe site env fs rfl)

@[simp] theorem exec_stat :
    Fallible.exec env.serve (stat site p) fs = (env.observe site (fs.stat p), fs) :=
  (exec_act env _ fs).trans (serve_observe site env fs rfl)

@[simp] theorem exec_measure :
    Fallible.exec env.serve (measure site p) fs = (env.observe site (fs.measure p), fs) :=
  (exec_act env _ fs).trans (serve_observe site env fs rfl)

@[simp] theorem exec_canonicalize :
    Fallible.exec env.serve (canonicalize site p) fs = (env.observe site (fs.canonicalize p), fs) :=
  (exec_act env _ fs).trans (serve_observe site env fs rfl)

@[simp] theorem exec_readTree :
    Fallible.exec env.serve (readTree site p) fs = (env.observe site (fs.readTree p), fs) :=
  (exec_act env _ fs).trans (serve_observe site env fs rfl)

@[simp] theorem exec_openFile :
    Fallible.exec env.serve (openFile site p) fs = (env.observe site (fs.openFile p), fs) :=
  (exec_act env _ fs).trans (serve_observe site env fs rfl)

@[simp] theorem exec_sync :
    Fallible.exec env.serve (sync site p) fs = (env.observe site (fs.openFile p), fs) :=
  (exec_act env _ fs).trans (serve_observe site env fs rfl)

@[simp] theorem exec_lock :
    Fallible.exec env.serve (lock site p) fs = (env.observe site (fs.openFile p), fs) :=
  (exec_act env _ fs).trans (serve_observe site env fs rfl)

@[simp] theorem exec_read :
    Fallible.exec env.serve (read site p) fs = (env.observe site (fs.read p), fs) :=
  (exec_act env _ fs).trans (serve_observe site env fs rfl)

@[simp] theorem exec_random :
    Fallible.exec env.serve (random site) fs = (env.observe site (.ok (env.entropy site)), fs) :=
  (exec_act env _ fs).trans (serve_observe site env fs rfl)

@[simp] theorem exec_createDirAll :
    Fallible.exec env.serve (createDirAll site p) fs = env.change site fs (fs.createDirAll p) := by
  rw [createDirAll, exec_act, serve_change site env fs rfl rfl]
  rcases env.change site fs (fs.createDirAll p) with ⟨r, t⟩
  cases r <;> rfl

@[simp] theorem exec_createNew :
    Fallible.exec env.serve (createNew site p) fs = env.change site fs (fs.createNew p) := by
  rw [createNew, exec_act, serve_change site env fs rfl rfl]
  rcases env.change site fs (fs.createNew p) with ⟨r, t⟩
  cases r <;> rfl

@[simp] theorem exec_append (bytes : Bytes) :
    Fallible.exec env.serve (append site p bytes) fs = env.change site fs (fs.append p bytes) := by
  rw [append, exec_act, serve_change site env fs rfl rfl]
  rcases env.change site fs (fs.append p bytes) with ⟨r, t⟩
  cases r <;> rfl

@[simp] theorem exec_rename :
    Fallible.exec env.serve (rename site p q) fs = env.change site fs (fs.rename p q) := by
  rw [rename, exec_act, serve_change site env fs rfl rfl]
  rcases env.change site fs (fs.rename p q) with ⟨r, t⟩
  cases r <;> rfl

@[simp] theorem exec_remove :
    Fallible.exec env.serve (remove site p) fs = env.change site fs (fs.remove p) := by
  rw [remove, exec_act, serve_change site env fs rfl rfl]
  rcases env.change site fs (fs.remove p) with ⟨r, t⟩
  cases r <;> rfl

@[simp] theorem exec_pathExists :
    Fallible.exec env.serve (pathExists site p : FsProg S N ε Bool) fs =
      (.ok (!env.fault site && fs.present p), fs) := by
  rw [pathExists, Fallible.exec_bind, Fallible.exec_attempt, exec_stat]
  cases hf : env.fault site <;> simp only [Env.observe, hf, FileSystem.present] <;> rfl

variable {site env fs} {K : FileSystem N → Prop}

theorem settles_observe {x : FsProg S N IoError α} {r : Except IoError α} {a : α}
    (hx : Fallible.exec env.serve x fs = (env.observe site r, fs)) (hr : r = .ok a) (hK : K fs) :
    Fallible.Settles env.serve x fs (env.fault site = false) a fs K := by
  subst hr
  cases hf : env.fault site <;> simp [Fallible.Settles, hx, Env.observe, hf, hK]

theorem settles_observe_error {x : FsProg S N IoError α} {r : Except IoError α} {a : α}
    {t : FileSystem N} {e : IoError}
    (hx : Fallible.exec env.serve x fs = (env.observe site r, fs)) (hr : r = .error e) (hK : K fs) :
    Fallible.Settles env.serve x fs False a t K := by
  subst hr
  cases hf : env.fault site <;> simp [Fallible.Settles, hx, Env.observe, hf, hK]

theorem settles_change {x : FsProg S N IoError Unit} {r : Except IoError (FileSystem N)}
    {t : FileSystem N}
    (hx : Fallible.exec env.serve x fs = env.change site fs r) (hr : r = .ok t) (hK : K fs) :
    Fallible.Settles env.serve x fs (env.fault site = false) () t K := by
  subst hr
  cases hf : env.fault site <;> simp [Fallible.Settles, hx, Env.change, hf, hK]

theorem settles_change_error {x : FsProg S N IoError Unit} {r : Except IoError (FileSystem N)}
    {t : FileSystem N} {e : IoError}
    (hx : Fallible.exec env.serve x fs = env.change site fs r) (hr : r = .error e) (hK : K fs) :
    Fallible.Settles env.serve x fs False () t K := by
  subst hr
  cases hf : env.fault site <;> simp [Fallible.Settles, hx, Env.change, hf, hK]

end exec

end FsProg

end Effects
