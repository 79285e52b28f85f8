/-!
# The runtime header

The header that every generated unit includes. It declares the stamp of a
table, a view of array elements, an owner of a global reference, and the two
functions by which stubs raise exceptions and return while one is pending.
-/

namespace NativeGlue
namespace RuntimeHeader

/-- The declarations of the header. -/
def body : String :=
  "#pragma once\n\n#include <jni.h>\n\n#include <cstddef>\n#include <cstdint>\n"
    ++ r#"
namespace jnibridge {

struct TableStamp {
    const char* generator_version;
    std::uint32_t entry_count;
    std::uint64_t fingerprint;
};

template <typename T>
struct Span {
    T* data;
    std::size_t size;

    T* begin() const noexcept { return data; }
    T* end() const noexcept { return data + size; }
    T& operator[](std::size_t i) const noexcept { return data[i]; }
    bool empty() const noexcept { return size == 0; }
};

// Owns a global reference and deletes it on destruction. Must be destroyed on
// a thread attached to the JVM that created it.
class GlobalRef {
public:
    GlobalRef(JNIEnv* env, jobject ref) noexcept : env_(env), ref_(ref) {}
    GlobalRef(const GlobalRef&) = delete;
    GlobalRef& operator=(const GlobalRef&) = delete;
    GlobalRef(GlobalRef&& other) noexcept : env_(other.env_), ref_(other.release()) {}
    GlobalRef& operator=(GlobalRef&& other) noexcept {
        if (this != &other) {
            reset();
            env_ = other.env_;
            ref_ = other.release();
        }
        return *this;
    }
    ~GlobalRef() { reset(); }

    jobject get() const noexcept { return ref_; }
    explicit operator bool() const noexcept { return ref_ != nullptr; }

    jobject release() noexcept {
        jobject ref = ref_;
        ref_ = nullptr;
        return ref;
    }

    void reset() noexcept {
        if (ref_ != nullptr) {
            env_->DeleteGlobalRef(ref_);
            ref_ = nullptr;
        }
    }

private:
    JNIEnv* env_;
    jobject ref_;
};

// Leaves an already pending exception in place.
inline void throwJava(JNIEnv* env, const char* class_name, const char* message) noexcept {
    if (env->ExceptionCheck()) {
        return;
    }
    jclass cls = env->FindClass(class_name);
    if (cls == nullptr) {
        return;
    }
    env->ThrowNew(cls, message);
    env->DeleteLocalRef(cls);
}

template <typename T>
inline T defaultReturn() noexcept {
    return T{};
}

template <>
inline void defaultReturn<void>() noexcept {}

}  // namespace jnibridge
"#

/-- The header of a given version. -/
def render (version : String) : String :=
  "// Generated by jnibridge " ++ version ++ ". Do not edit.\n" ++ body

end RuntimeHeader
end NativeGlue
