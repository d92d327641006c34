import QuantileMonitor.Text.Blank
import QuantileMonitor.Text.Numeral
import QuantileMonitor.Word

/-! Names and numbers of syscalls on 64-bit x86. -/

namespace QuantileMonitor.Device

structure UnknownSyscall where
  item : String
deriving DecidableEq

def UnknownSyscall.message (e : UnknownSyscall) : String := "unknown syscall: " ++ e.item

namespace Syscall

def table : List (String × UInt32) :=
  [("read", 0), ("write", 1), ("open", 2), ("close", 3), ("stat", 4), ("fstat", 5), ("lstat", 6),
    ("poll", 7), ("lseek", 8), ("mmap", 9), ("mprotect", 10), ("munmap", 11), ("brk", 12),
    ("pread64", 17), ("pwrite64", 18), ("readv", 19), ("writev", 20), ("access", 21),
    ("pipe", 22), ("select", 23), ("dup", 32), ("dup2", 33), ("nanosleep", 35), ("socket", 41),
    ("connect", 42), ("accept", 43), ("sendto", 44), ("recvfrom", 45), ("sendmsg", 46),
    ("recvmsg", 47), ("shutdown", 48), ("bind", 49), ("listen", 50), ("clone", 56), ("fork", 57),
    ("vfork", 58), ("execve", 59), ("exit", 60), ("wait4", 61), ("kill", 62), ("fcntl", 72),
    ("flock", 73), ("fsync", 74), ("fdatasync", 75), ("truncate", 76), ("ftruncate", 77),
    ("getdents", 78), ("getcwd", 79), ("chdir", 80), ("rename", 82), ("mkdir", 83),
    ("rmdir", 84), ("creat", 85), ("link", 86), ("unlink", 87), ("symlink", 88),
    ("readlink", 89), ("chmod", 90), ("fchmod", 91), ("chown", 92), ("fchown", 93),
    ("lchown", 94), ("umask", 95), ("sync", 162), ("futex", 202), ("epoll_wait", 232),
    ("openat", 257), ("mkdirat", 258), ("fstatat", 262), ("unlinkat", 263), ("renameat", 264),
    ("faccessat", 269), ("splice", 275), ("epoll_pwait", 281), ("fallocate", 285),
    ("accept4", 288), ("recvmmsg", 299), ("syncfs", 306), ("sendmmsg", 307)]

def defaults : List String := ["pread64", "pwrite64", "fsync", "fdatasync", "read", "write"]

def number? (name : String) : Option UInt32 := (table.find? (·.1 == name)).map (·.2)

def name? (number : UInt32) : Option String := (table.find? (·.2 == number)).map (·.1)

def denoted? (item : String) : Option UInt32 :=
  (number? item).or ((Text.unsigned? Word.halfBound item.toList).map Nat.toUInt32)

/-- The numbers that a list of names and numbers denotes, each at its first place. Blank items are
passed over. -/
def ofItems (items : List String) : Except UnknownSyscall (List UInt32) :=
  go items []
where
  go : List String → List UInt32 → Except UnknownSyscall (List UInt32)
    | [], seen => .ok seen.reverse
    | raw :: rest, seen =>
      let item := String.ofList (Text.trim raw.toList)
      if item.isEmpty then go rest seen
      else
        match denoted? item with
        | none => .error ⟨item⟩
        | some n => go rest (if seen.contains n then seen else n :: seen)

end Syscall

end QuantileMonitor.Device
