import Ntfw.Ntfe.Engine

set_option autoImplicit false

/-! # The configuration file (`ntfwkm/driver.cpp`)

`ConfigureFirewallEngine` reads the file named in the registry and hands it to the engine. What
the system calls in it return is up to the system: their outcomes are a parameter. One status
variable serves them all. -/

namespace Ntfw.Ntfwkm

/-- `NTSTATUS`, and `NDIS_STATUS` alike. -/
abbrev Status := u32

def STATUS_SUCCESS : Status := 0
def STATUS_INTERNAL_ERROR : Status := 0xC00000E5
def STATUS_IO_DEVICE_INVALID_DATA : Status := 0xC00001B0
def STATUS_FILE_TOO_LARGE : Status := 0xC0000904

/-- A handle, and the address of a pool buffer; neither is null. -/
abbrev Handle := Nat
abbrev Buffer := Nat

/-- What the system calls return: the handle if one was stored, the size of the file, the buffer if
there was room for it, and what it holds after the read. -/
structure Outcomes where
  readConfiguration : Status
  openFile : Status × Option Handle
  queryInformationFile : Status × BitVec 64
  allocatePool : Option Buffer
  readFile : Status × NtfeConfig

/-- What is done, in order: a handle opened or closed, a buffer allocated or freed, and a call of
`ntfe_configure` with its result. -/
inductive Action where
  | opened (h : Handle)
  | closed (h : Handle)
  | allocated (b : Buffer)
  | freed (b : Buffer)
  | configure (cfg : NtfeConfig) (cfg_len : u32) (result : Bool)

/-- The label `done`: what is open is closed and what is allocated is freed. -/
def done (handle : Option Handle) (data : Option Buffer) : List Action :=
  (handle.map Action.closed).toList ++ (data.map Action.freed).toList

/-- The file is in the buffer: it is validated and applied. -/
def applyConfiguration (env : Env) (gs : Gs) (status : Status) (cfg : NtfeConfig)
    (cfg_len : u32) : Exec ((Status × List Action) × Gs) :=
  ntfeValidateConfiguration gs cfg cfg_len >>= fun ok =>
  if !ok then .ok ((STATUS_IO_DEVICE_INVALID_DATA, []), gs)
  else
  ntfeConfigure env gs cfg cfg_len >>= fun (ok, gs) =>
  .ok ((if !ok then STATUS_INTERNAL_ERROR else status, [.configure cfg cfg_len ok]), gs)

/-- `ConfigureFirewallEngine`: the status it returns, and what it has done. -/
def configureFirewallEngine (env : Env) (gs : Gs) (o : Outcomes) :
    Exec ((Status × List Action) × Gs) :=
  if o.readConfiguration ≠ STATUS_SUCCESS then .ok ((o.readConfiguration, done none none), gs)
  else
  let handle := o.openFile.2
  let opened := (handle.map Action.opened).toList
  if o.openFile.1 ≠ STATUS_SUCCESS then .ok ((o.openFile.1, opened ++ done handle none), gs)
  else if o.queryInformationFile.1 ≠ STATUS_SUCCESS then
    .ok ((o.queryInformationFile.1, opened ++ done handle none), gs)
  else if (MAX_NTFE_CFG_SZ : Int) < o.queryInformationFile.2.toInt then
    .ok ((STATUS_FILE_TOO_LARGE, opened ++ done handle none), gs)
  else
  match o.allocatePool with
  -- The status is still that of the query.
  | none => .ok ((o.queryInformationFile.1, opened ++ done handle none), gs)
  | some data =>
      let opened := opened ++ [.allocated data]
      if o.readFile.1 ≠ STATUS_SUCCESS then
        .ok ((o.readFile.1, opened ++ done handle (some data)), gs)
      else
      applyConfiguration env gs o.readFile.1 o.readFile.2
          (o.queryInformationFile.2.setWidth 32) >>= fun ((status, calls), gs) =>
      .ok ((status, opened ++ calls ++ done handle (some data)), gs)

end Ntfw.Ntfwkm
